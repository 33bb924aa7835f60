import Flotilla.Lib.Capacity

/-!
# Runs that come to rest

A partial step function comes to rest from a state when repeating it reaches a
state without a next one.  A measure into a well-founded order that every step
lowers brings every run to rest.

* `repeats`, `exists_rest` : the run, and that it rests.
* `never_rests_of_cycle` : a run that goes in circles does not.
* `countP_lt_countP` : fewer elements satisfy a stronger predicate, strictly when
  one of them told the two apart.
* `BTreeMap.weight` : the sum of a weight over the entries of a map, with what
  changing one entry or all of them does to it.
-/

namespace Flotilla.Lib

open Std

section Rest

variable {S M : Type} (next : S → Option S)

/-- At most `n` steps; a state without a next one is kept. -/
def repeats : Nat → S → S
  | 0, s => s
  | n + 1, s =>
    match next s with
    | some s' => repeats n s'
    | none => s

/-- **A run that lowers a well-founded measure comes to rest.** -/
theorem exists_rest [Preorder M] [WellFoundedLT M] {P : S → Prop} (measure : S → M)
    (hstep : ∀ s s', P s → next s = some s' → P s' ∧ measure s' < measure s) (s : S) (hs : P s) :
    ∃ n, next (repeats next n s) = none := by
  -- Induction on the measure of the first state.
  induction h : measure s using WellFoundedLT.induction generalizing s with
  | ind m ih =>
    cases hnext : next s with
    | none => exact ⟨0, hnext⟩
    | some s' =>
      obtain ⟨hs', hlt⟩ := hstep s s' hs hnext
      obtain ⟨n, hn⟩ := ih (measure s') (h ▸ hlt) s' hs' rfl
      refine ⟨n + 1, ?_⟩
      rw [repeats, hnext]
      exact hn

variable {next}

/-- Two states that step to each other never rest. -/
theorem never_rests_of_cycle {s s' : S} (h : next s = some s') (h' : next s' = some s) (n : Nat) :
    next (repeats next n s) ≠ none := by
  have hcycle : ∀ n, (repeats next n s = s ∨ repeats next n s = s') ∧
      (repeats next n s' = s ∨ repeats next n s' = s') := by
    intro n
    induction n with
    | zero => exact ⟨.inl rfl, .inr rfl⟩
    | succ n ih =>
      rw [repeats, repeats, h, h']
      exact ⟨ih.2, ih.1⟩
  rcases (hcycle n).1 with heq | heq
  · rw [heq, h]
    exact Option.some_ne_none _
  · rw [heq, h']
    exact Option.some_ne_none _

end Rest

theorem countP_lt_countP {A : Type} {p q : A → Bool} {l : List A}
    (h : ∀ a ∈ l, p a = true → q a = true) {a : A} (ha : a ∈ l) (hq : q a = true)
    (hp : p a = false) : l.countP p < l.countP q := by
  have hboth : l.countP p = (l.filter q).countP p := by
    rw [List.countP_filter]
    exact List.countP_congr fun b hb => by simpa using h b hb
  rw [hboth, List.countP_eq_length_filter (p := q), List.countP_lt_length_iff]
  exact ⟨a, List.mem_filter.mpr ⟨ha, hq⟩, hp⟩

namespace BTreeMap

variable {K V : Type} [Ord K] [TransOrd K] [LawfulEqOrd K]

/-- The sum of the weights of the entries. -/
def weight (μ : K → V → Nat) (m : BTreeMap K V) : Nat :=
  (m.toList.map fun entry => μ entry.1 entry.2).sum

variable {k : K} {m : BTreeMap K V} {v : V} {μ μ' : K → V → Nat}

theorem weight_congr (h : ∀ k v, m[k]? = some v → μ' k v = μ k v) : weight μ' m = weight μ m := by
  refine congrArg List.sum (List.map_congr_left fun entry hentry => ?_)
  exact h entry.1 entry.2 (ExtTreeMap.mem_toList_iff_getElem?_eq_some.mp hentry)

theorem weight_eq_add (h : m[k]? = some v) : weight μ m = μ k v + weight μ (m.erase k) := by
  unfold weight
  rw [((toList_perm_cons h).map _).sum_eq, List.map_cons, List.sum_cons]

theorem erase_modify (f : V → V) :
    (m.modify k f).erase k = m.erase k := by
  apply ExtTreeMap.ext_getElem?
  intro k'
  simp only [ExtTreeMap.getElem?_erase, ExtTreeMap.getElem?_modify]
  split <;> rfl

/-- One entry gets lighter and the others keep their weight. -/
theorem weight_modify_lt {f : V → V} (h : m[k]? = some v) (hlt : μ' k (f v) < μ k v)
    (hother : ∀ k' v', k' ≠ k → μ' k' v' = μ k' v') : weight μ' (m.modify k f) < weight μ m := by
  have hmodified : (m.modify k f)[k]? = some (f v) := by
    rw [ExtTreeMap.getElem?_modify_self, h]
    rfl
  have hrest : weight μ' (m.erase k) = weight μ (m.erase k) := by
    refine weight_congr fun k' v' hk' => hother k' v' ?_
    rintro rfl
    simp at hk'
  rw [weight_eq_add hmodified, weight_eq_add h, erase_modify, hrest]
  omega

/-- No entry gets heavier and one gets lighter. -/
theorem weight_map_lt {f : K → V → V} (hle : ∀ k v, m[k]? = some v → μ' k (f k v) ≤ μ k v)
    (h : m[k]? = some v) (hlt : μ' k (f k v) < μ k v) : weight μ' (m.map f) < weight μ m := by
  unfold weight
  rw [ExtTreeMap.toList_map, List.map_map]
  refine List.sum_lt_sum _ _ (fun entry hentry => ?_)
    ⟨(k, v), ExtTreeMap.mem_toList_iff_getElem?_eq_some.mpr h, hlt⟩
  exact hle entry.1 entry.2 (ExtTreeMap.mem_toList_iff_getElem?_eq_some.mp hentry)

end BTreeMap

end Flotilla.Lib
