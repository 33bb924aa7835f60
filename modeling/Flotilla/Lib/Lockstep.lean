import Flotilla.Lib.Loop

/-!
# Computations in lockstep

Two computations that may fail run in lockstep when they fail with the same error
or both succeed with related results.  The rules take one check or lookup off
both at a time, so that a proof follows the text of the two programs.
-/

namespace Flotilla.Lib

variable {E A B C : Type}

/-- The same error, or related results. -/
inductive Lockstep (R : A → B → Prop) : Except E A → Except E B → Prop where
  | error (e : E) : Lockstep R (.error e) (.error e)
  | ok {a : A} {b : B} (h : R a b) : Lockstep R (.ok a) (.ok b)

namespace Lockstep

variable {R : A → B → Prop} {x : Except E A} {y : Except E B}

theorem ok_left (h : Lockstep R x y) {a : A} (hx : x = .ok a) : ∃ b, y = .ok b ∧ R a b := by
  cases h with
  | error e => cases hx
  | ok h =>
    cases hx
    exact ⟨_, rfl, h⟩

theorem ok_right (h : Lockstep R x y) {b : B} (hy : y = .ok b) : ∃ a, x = .ok a ∧ R a b := by
  cases h with
  | error e => cases hy
  | ok h =>
    cases hy
    exact ⟨_, rfl, h⟩

variable {e : E} {f : C → Except E A} {g : Unit → Except E B} {o : Option C}

theorem error_iff (h : Lockstep R x y) : x = .error e ↔ y = .error e := by
  cases h with
  | error e' => simp
  | ok h => simp

theorem refuse {p q : Prop} [Decidable p] [Decidable q] {f : Unit → Except E A} (hpq : p ↔ q)
    (h : ¬ p → Lockstep R (f ()) (g ())) :
    Lockstep R (refuseIf p e >>= f) (refuseIf q e >>= g) := by
  by_cases hp : p
  · rw [refuseIf, refuseIf, if_pos hp, if_pos (hpq.mp hp)]
    exact .error e
  · rw [refuseIf_bind hp, refuseIf_bind fun hq => hp (hpq.mpr hq)]
    exact h hp

/-- A lookup on both sides. -/
theorem lookup {v : C → D} {g : D → Except E B} {o' : Option D} (ho : o' = o.map v)
    (h : ∀ c, o = some c → Lockstep R (f c) (g (v c))) :
    Lockstep R (okOr o e >>= f) (okOr o' e >>= g) := by
  subst ho
  cases o with
  | none => exact .error e
  | some c => exact h c rfl

/-- A lookup on one side, and a check that it would succeed on the other. -/
theorem lookup_refuse {q : Prop} [Decidable q] (ho : o = none ↔ q)
    (h : ∀ c, o = some c → Lockstep R (f c) (g ())) :
    Lockstep R (okOr o e >>= f) (refuseIf q e >>= g) := by
  cases o with
  | none =>
    rw [refuseIf, if_pos (ho.mp rfl)]
    exact .error e
  | some c =>
    rw [refuseIf_bind fun hq => by cases ho.mpr hq]
    exact h c rfl

end Lockstep

end Flotilla.Lib
