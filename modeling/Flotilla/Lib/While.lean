import Flotilla.Lib.Loop

/-!
# Loops without a bound in the source

A `loop` or `while` of the source is run with fuel: `whileM step fuel s` repeats
`step` until it asks to leave.  A run halts by refusing, by panicking, or by still
`running` when the fuel is used up; only the last is about the model.  `Settles f`
says that it does not happen: from some amount of fuel on, `f` has one result and
that result is not `running`.

* `settles_refusing`, `Settles.bind`, `Settles.foldlM`, `Settles.forM` : how settling composes.
* `settles_whileM` : a loop whose step lowers a measure settles.
* `whileM_invariant` : what every step keeps holds where the loop is left.
* `forM_eq_ok`, `foldlM_grows` : what a loop over a list has done when it returns.
-/

namespace Flotilla.Lib

/-- How a computation ends without a result. -/
inductive Halt (E : Type) where
  | refused (error : E)
  | panicked (message : String)
  | running
deriving DecidableEq, Repr

variable {E A B S : Type}

/-- A computation that can only refuse. -/
def refusing : Except E A → Except (Halt E) A
  | .ok a => .ok a
  | .error e => .error (.refused e)

@[simp] theorem refusing_eq_ok {x : Except E A} {a : A} : refusing x = .ok a ↔ x = .ok a := by
  cases x <;> simp [refusing]

theorem refusing_ne_running (x : Except E A) : refusing x ≠ .error .running := by
  cases x <;> simp [refusing]

theorem refusing_ne_panicked (x : Except E A) (message : String) :
    refusing x ≠ .error (.panicked message) := by
  cases x <;> simp [refusing]

/-- A computation that can only panic. -/
def panicking : Except String A → Except (Halt E) A
  | .ok a => .ok a
  | .error message => .error (.panicked message)

/-- Repeat `step` until it returns no next state. -/
def whileM (step : S → Except (Halt E) (Option S)) : Nat → S → Except (Halt E) S
  | 0, _ => .error .running
  | fuel + 1, s =>
    match step s with
    | .error e => .error e
    | .ok none => .ok s
    | .ok (some s') => whileM step fuel s'

/-! ### Settling -/

/-- From some amount of fuel on the result is one and the same, and not for want of fuel. -/
def Settles (f : Nat → Except (Halt E) A) : Prop :=
  ∃ n, f n ≠ .error .running ∧ ∀ fuel, n ≤ fuel → f fuel = f n

variable {f : Nat → Except (Halt E) A} {l : List A} {step : S → Except (Halt E) (Option S)}

theorem Settles.of_eq {r : Except (Halt E) A} {n : Nat} (hr : r ≠ .error .running)
    (h : ∀ fuel, n ≤ fuel → f fuel = r) : Settles f :=
  ⟨n, (h n le_rfl).symm ▸ hr, fun fuel hle => (h fuel hle).trans (h n le_rfl).symm⟩

theorem settles_refusing (x : Except E A) : Settles fun _ => refusing x :=
  .of_eq (n := 0) (refusing_ne_running x) fun _ _ => rfl

theorem settles_panicking (x : Except String A) :
    Settles fun _ => (panicking x : Except (Halt E) A) :=
  .of_eq (n := 0) (by cases x <;> simp [panicking]) fun _ _ => rfl

theorem settles_ok (a : A) : Settles fun _ => (.ok a : Except (Halt E) A) :=
  settles_refusing (.ok a)

theorem Settles.bind {g : A → Nat → Except (Halt E) B} (hf : Settles f) (hg : ∀ a, Settles (g a)) :
    Settles fun fuel => f fuel >>= fun a => g a fuel := by
  obtain ⟨n, hn, hfn⟩ := hf
  cases hr : f n with
  | error e =>
    rw [hr] at hn
    have herror : (.error e : Except (Halt E) B) ≠ .error .running := by
      rintro ⟨⟩
      exact hn rfl
    refine .of_eq (n := n) herror fun fuel hle => ?_
    rw [hfn fuel hle, hr]
    rfl
  | ok a =>
    obtain ⟨m, hm, hgm⟩ := hg a
    refine .of_eq (n := max n m) hm fun fuel hle => ?_
    rw [hfn fuel (le_trans (le_max_left n m) hle), hr]
    exact hgm fuel (le_trans (le_max_right n m) hle)

theorem Settles.foldlM {f : Nat → B → A → Except (Halt E) B}
    (hf : ∀ b a, Settles fun fuel => f fuel b a) (l : List A) (b : B) :
    Settles fun fuel => l.foldlM (f fuel) b := by
  induction l generalizing b with
  | nil => exact settles_ok b
  | cons a l ih =>
    exact (hf b a).bind fun b' => ih b'

theorem Settles.forM {f : Nat → A → Except (Halt E) Unit} (hf : ∀ a, Settles fun fuel => f fuel a)
    (l : List A) : Settles fun fuel => l.forM (f fuel) := by
  induction l with
  | nil => exact settles_ok ()
  | cons a l ih => exact (hf a).bind fun _ => ih

/-- **A loop whose step lowers a measure settles.** -/
theorem settles_whileM (measure : S → Nat) (hrun : ∀ s, step s ≠ .error .running)
    (hdown : ∀ s s', step s = .ok (some s') → measure s' < measure s) (s : S) :
    Settles fun fuel => whileM step fuel s := by
  -- Induction on the measure of the first state.
  induction h : measure s using Nat.strong_induction_on generalizing s with
  | _ m ih =>
    -- One unit of fuel pays for the step.
    have hstep : ∀ {r : Except (Halt E) S} {n : Nat}, r ≠ .error .running →
        (∀ fuel, n ≤ fuel → whileM step (fuel + 1) s = r) →
        Settles fun fuel => whileM step fuel s := by
      intro r n hr heq
      refine .of_eq (n := n + 1) hr fun fuel hle => ?_
      obtain ⟨k, rfl⟩ := Nat.exists_eq_add_of_le' hle
      exact heq (k + n) (Nat.le_add_left n k)
    cases hs : step s with
    | error e =>
      have hne : e ≠ .running := fun he => hrun s (he ▸ hs)
      exact hstep (r := .error e) (n := 0) (by simpa using hne) fun fuel _ => by rw [whileM, hs]
    | ok next =>
      cases next with
      | none => exact hstep (r := .ok s) (n := 0) (by simp) fun fuel _ => by rw [whileM, hs]
      | some s' =>
        obtain ⟨n, hn, hall⟩ := ih (measure s') (h ▸ hdown s s' hs) s' rfl
        refine hstep (n := n) hn fun fuel hle => ?_
        rw [whileM, hs]
        exact hall fuel hle

/-! ### Where a loop is left -/

/-- **The loop rule**: what every step keeps holds where the loop is left, and there the
step asks to leave. -/
theorem whileM_invariant {P : S → Prop} (hstep : ∀ s s', P s → step s = .ok (some s') → P s')
    {fuel : Nat} {s r : S} (hs : P s) (h : whileM step fuel s = .ok r) :
    P r ∧ step r = .ok none := by
  induction fuel generalizing s with
  | zero => cases h
  | succ fuel ih =>
    rw [whileM] at h
    split at h
    case h_1 => cases h
    case h_2 hnone =>
      cases h
      exact ⟨hs, hnone⟩
    case h_3 s' hsome => exact ih (hstep s s' hs hsome) h

/-- A loop that stops with an error stops at a state that its steps lead to. -/
theorem exists_of_whileM_error {P : S → Prop} (hstep : ∀ s s', P s → step s = .ok (some s') → P s')
    {fuel : Nat} {s : S} {e : Halt E} (hs : P s) (h : whileM step fuel s = .error e)
    (he : e ≠ .running) : ∃ s, P s ∧ step s = .error e := by
  induction fuel generalizing s with
  | zero =>
    cases h
    exact absurd rfl he
  | succ fuel ih =>
    rw [whileM] at h
    split at h
    case h_1 herror =>
      cases h
      exact ⟨s, hs, herror⟩
    case h_2 => cases h
    case h_3 s' hsome => exact ih (hstep s s' hs hsome) h

/-! ### Loops over a list -/

theorem forM_eq_ok {f : A → Except E Unit} {u : Unit} (h : l.forM f = .ok u) :
    ∀ a ∈ l, f a = .ok () := by
  induction l with
  | nil => exact fun a ha => absurd ha List.not_mem_nil
  | cons a l ih =>
    obtain ⟨_, ha, hl⟩ := bind_eq_ok h
    intro a' ha'
    rcases List.mem_cons.mp ha' with rfl | hmem
    · exact ha
    · exact ih hl a' hmem

/-- A loop of checks stops with an error at the first element that fails. -/
theorem forM_eq_error_iff {f : A → Except E Unit} {e : E} :
    l.forM f = .error e ↔ ∃ before a after, l = before ++ a :: after ∧
      (∀ b ∈ before, f b = .ok ()) ∧ f a = .error e := by
  induction l with
  | nil => exact ⟨nofun, by simp⟩
  | cons a l ih =>
    rw [List.forM_eq_forM, List.forM_cons, ← List.forM_eq_forM]
    cases ha : f a with
    | error e' =>
      constructor
      · rintro ⟨⟩
        exact ⟨[], a, l, rfl, by simp, ha⟩
      · rintro ⟨before, b, after, hl, hbefore, hb⟩
        cases before with
        | nil =>
          cases hl
          rw [← hb, ha]
          rfl
        | cons c before =>
          cases hl
          rw [hbefore a List.mem_cons_self] at ha
          cases ha
    | ok u =>
      rw [bind_ok rfl, ih]
      constructor
      · rintro ⟨before, b, after, rfl, hbefore, hb⟩
        exact ⟨a :: before, b, after, rfl, List.forall_mem_cons.mpr ⟨ha, hbefore⟩, hb⟩
      · rintro ⟨before, b, after, hl, hbefore, hb⟩
        cases before with
        | nil =>
          cases hl
          rw [ha] at hb
          cases hb
        | cons c before =>
          cases hl
          exact ⟨before, b, after, rfl, (List.forall_mem_cons.mp hbefore).2, hb⟩

/-- A loop moves its state along a preorder; what an element's own step establishes, and the
preorder keeps, holds of every element at the end. -/
theorem foldlM_grows {R : B → B → Prop} {Q : A → B → Prop} {f : B → A → Except E B}
    (hrefl : ∀ b, R b b) (htrans : ∀ b b' b'', R b b' → R b' b'' → R b b'')
    (hkeep : ∀ a b b', Q a b → R b b' → Q a b') (hstep : ∀ b a b', f b a = .ok b' → R b b' ∧ Q a b')
    {b b' : B} (h : l.foldlM f b = .ok b') : R b b' ∧ ∀ a ∈ l, Q a b' := by
  induction l generalizing b with
  | nil =>
    cases h
    exact ⟨hrefl _, fun a ha => absurd ha List.not_mem_nil⟩
  | cons a l ih =>
    obtain ⟨b₁, h₁, hrest⟩ := bind_eq_ok h
    obtain ⟨hR, hQ⟩ := hstep b a b₁ h₁
    obtain ⟨hR', hQ'⟩ := ih hrest
    refine ⟨htrans b b₁ b' hR hR', fun a' ha' => ?_⟩
    rcases List.mem_cons.mp ha' with rfl | hmem
    · exact hkeep _ b₁ b' hQ hR'
    · exact hQ' a' hmem

end Flotilla.Lib
