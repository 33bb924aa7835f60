import Flotilla.Lib.BTreeMap
import Flotilla.Lib.Loop

/-!
# Taking from a capacity

A capacity is a number of free units for each of its dimensions.  `deduct` takes
one entry from it and fails where the dimension is missing or holds too little.

* `Room` : every dimension of the entries is there, and they add up to no more
  than is free.  The order of the entries does not matter (`Room.perm`).
* `foldlM_deduct_iff` : taking a list of entries succeeds exactly when there is
  room for them, and what is left is the difference.
* `Room.append` : there is room for more when it fits what is left.
-/

namespace Flotilla.Lib

open Std (ExtTreeMap)

/-- A loop in a loop is one loop over the concatenation. -/
theorem foldlM_flatMap {A B C E : Type} (g : A → List B) (f : C → B → Except E C) (l : List A)
    (c : C) : (l.flatMap g).foldlM f c = l.foldlM (fun c a => (g a).foldlM f c) c := by
  induction l generalizing c with
  | nil => rfl
  | cons a l ih =>
    rw [List.flatMap_cons, List.foldlM_append, List.foldlM_cons]
    exact congrArg _ (funext ih)

namespace BTreeMap

variable {K V : Type} [Ord K] [Std.TransOrd K] [Std.LawfulEqOrd K]

theorem nodup_toList (m : BTreeMap K V) : m.toList.Nodup := by
  refine m.distinct_keys_toList.imp fun {a b} hne => ?_
  rintro rfl
  exact hne Std.compare_self

/-- An entry of a map, and the others. -/
theorem toList_perm_cons {m : BTreeMap K V} {k : K} {v : V} (h : m[k]? = some v) :
    m.toList.Perm ((k, v) :: (m.erase k).toList) := by
  have hnew : (k, v) ∉ (m.erase k).toList := by
    simp
  rw [List.perm_ext_iff_of_nodup (nodup_toList m) (List.nodup_cons.mpr ⟨hnew, nodup_toList _⟩)]
  rintro ⟨k', v'⟩
  rw [List.mem_cons, ExtTreeMap.mem_toList_iff_getElem?_eq_some,
    ExtTreeMap.mem_toList_iff_getElem?_eq_some, ExtTreeMap.getElem?_erase]
  by_cases hk : compare k k' = .eq
  · obtain rfl := Std.compare_eq_iff_eq.mp hk
    rw [if_pos hk, h]
    simp [eq_comm]
  · rw [if_neg hk]
    have hne : k' ≠ k := fun heq => hk (heq ▸ Std.compare_self)
    simp [hne]

theorem toList_insert_perm (m : BTreeMap K V) (k : K) (v : V) :
    (m.insert k v).toList.Perm ((k, v) :: (m.erase k).toList) := by
  rw [← erase_insert]
  exact toList_perm_cons ExtTreeMap.getElem?_insert_self

end BTreeMap

namespace Capacity

variable {K E : Type} [DecidableEq K]

/-- What the entries add up to in a dimension. -/
def total (k : K) (entries : List (K × Nat)) : Nat :=
  ((entries.filter fun entry => entry.1 = k).map Prod.snd).sum

theorem total_cons (k : K) (entry : K × Nat) (entries : List (K × Nat)) :
    total k (entry :: entries) = (if entry.1 = k then entry.2 else 0) + total k entries := by
  by_cases hk : entry.1 = k <;> simp [total, hk]

theorem total_append (k : K) (entries entries' : List (K × Nat)) :
    total k (entries ++ entries') = total k entries + total k entries' := by
  simp [total]

variable {entries entries' : List (K × Nat)} {entry : K × Nat}

theorem total_eq_zero {k : K} (h : ∀ entry ∈ entries, entry.1 ≠ k) : total k entries = 0 := by
  have hnone : (entries.filter fun entry => entry.1 = k) = [] := by
    simpa [List.filter_eq_nil_iff] using h
  rw [total, hnone]
  rfl

theorem total_perm {k : K} (h : entries.Perm entries') : total k entries = total k entries' :=
  ((h.filter _).map _).sum_eq

variable [Ord K] [Std.TransOrd K]

/-- Takes an entry's units from its dimension. -/
def deduct (unknown underflow : K → E) (free : BTreeMap K Nat) (entry : K × Nat) :
    Except E (BTreeMap K Nat) := do
  let units ← okOr free[entry.1]? (unknown entry.1)
  refuseIf (units < entry.2) (underflow entry.1)
  return free.insert entry.1 (units - entry.2)

variable {unknown underflow : K → E} {free left : BTreeMap K Nat}

omit [DecidableEq K] in
theorem deduct_eq_ok :
    deduct unknown underflow free entry = .ok left ↔
      ∃ units, free[entry.1]? = some units ∧ entry.2 ≤ units ∧
        left = free.insert entry.1 (units - entry.2) := by
  constructor
  · intro h
    obtain ⟨units, hunits, h⟩ := bind_eq_ok h
    obtain ⟨hfits, h⟩ := of_refuseIf h
    cases h
    exact ⟨units, okOr_eq_ok.mp hunits, not_lt.mp hfits, rfl⟩
  · rintro ⟨units, hunits, hfits, rfl⟩
    rw [deduct, hunits]
    exact refuseIf_bind (not_lt.mpr hfits)

/-- Every dimension of the entries is there, and they add up to no more than is free. -/
structure Room (free : BTreeMap K Nat) (entries : List (K × Nat)) : Prop where
  known : ∀ entry ∈ entries, entry.1 ∈ free
  le : ∀ k units, free[k]? = some units → total k entries ≤ units

/-- What is left without the entries. -/
def remaining (free : BTreeMap K Nat) (entries : List (K × Nat)) : BTreeMap K Nat :=
  free.map fun k units => units - total k entries

theorem Room.perm (h : Room free entries) (hperm : entries.Perm entries') : Room free entries' :=
  ⟨fun entry hentry => h.known entry (hperm.mem_iff.mpr hentry),
    fun k units hk => total_perm hperm ▸ h.le k units hk⟩

theorem Room.of_append (h : Room free (entries ++ entries')) : Room free entries' := by
  refine ⟨fun entry hentry => h.known entry (List.mem_append_right _ hentry), fun k units hk => ?_⟩
  have hle := h.le k units hk
  rw [total_append] at hle
  omega

variable [Std.LawfulEqOrd K]

/-- The entries of a map add up, in a dimension, to what the map holds there. -/
theorem total_toList (m : BTreeMap K Nat) (k : K) : total k m.toList = m[k]?.getD 0 := by
  cases h : m[k]? with
  | none =>
    refine total_eq_zero fun entry hentry heq => ?_
    rw [ExtTreeMap.mem_toList_iff_getElem?_eq_some, heq, h] at hentry
    cases hentry
  | some units =>
    have hrest : total k (m.erase k).toList = 0 := by
      refine total_eq_zero fun entry hentry heq => ?_
      rw [ExtTreeMap.mem_toList_iff_getElem?_eq_some, heq] at hentry
      simp at hentry
    rw [total_perm (BTreeMap.toList_perm_cons h), total_cons, if_pos rfl, hrest]
    rfl

/-- Taking an entry and then others, against taking them all. -/
theorem remaining_insert {units : Nat} (hunits : free[entry.1]? = some units)
    (entries : List (K × Nat)) :
    remaining (free.insert entry.1 (units - entry.2)) entries =
      remaining free (entry :: entries) := by
  apply ExtTreeMap.ext_getElem?
  intro k
  rw [remaining, remaining, ExtTreeMap.getElem?_map, ExtTreeMap.getElem?_map,
    ExtTreeMap.getElem?_insert]
  by_cases hk : entry.1 = k
  · subst hk
    rw [if_pos Std.compare_self, hunits]
    simp only [Option.map_some, total_cons, if_pos, Option.some.injEq]
    omega
  · rw [if_neg fun h => hk (Std.compare_eq_iff_eq.mp h)]
    simp only [total_cons, if_neg hk, Nat.zero_add]

/-- **Taking the entries in turn takes what they add up to.** -/
theorem foldlM_deduct_iff :
    entries.foldlM (deduct unknown underflow) free = .ok left ↔
      Room free entries ∧ left = remaining free entries := by
  induction entries generalizing free with
  | nil =>
    have hroom : Room free [] := ⟨by simp, fun _ _ _ => Nat.zero_le _⟩
    have hsame : remaining free [] = free := by
      apply ExtTreeMap.ext_getElem?
      intro k
      simp [remaining, total]
    show Except.ok free = Except.ok left ↔ _
    rw [hsame, and_iff_right hroom, Except.ok.injEq, eq_comm]
  | cons entry entries ih =>
    rw [List.foldlM_cons]
    constructor
    · intro h
      obtain ⟨free', hfree', h⟩ := bind_eq_ok h
      obtain ⟨units, hunits, hfits, rfl⟩ := deduct_eq_ok.mp hfree'
      obtain ⟨⟨hknown, hle⟩, rfl⟩ := ih.mp h
      have hentry : entry.1 ∈ free := BTreeMap.mem_of_lookup hunits
      refine ⟨⟨?_, ?_⟩, remaining_insert hunits entries⟩
      · intro other hother
        rcases List.mem_cons.mp hother with rfl | hother
        · exact hentry
        · rcases ExtTreeMap.mem_insert.mp (hknown other hother) with heq | hmem
          · exact Std.compare_eq_iff_eq.mp heq ▸ hentry
          · exact hmem
      · intro k units' hk
        have hle := hle k
        rw [ExtTreeMap.getElem?_insert] at hle
        rw [total_cons]
        by_cases heq : entry.1 = k
        · subst heq
          cases hunits.symm.trans hk
          have := hle _ (if_pos Std.compare_self)
          rw [if_pos rfl]
          omega
        · have := hle units' (by rwa [if_neg fun h => heq (Std.compare_eq_iff_eq.mp h)])
          rw [if_neg heq]
          omega
    · rintro ⟨⟨hknown, hle⟩, rfl⟩
      have hentry := hknown entry List.mem_cons_self
      rw [ExtTreeMap.mem_iff_isSome_getElem?, Option.isSome_iff_exists] at hentry
      obtain ⟨units, hunits⟩ := hentry
      have htotal := hle entry.1 units hunits
      rw [total_cons, if_pos rfl] at htotal
      rw [bind_ok (deduct_eq_ok.mpr ⟨units, hunits, by omega, rfl⟩)]
      refine ih.mpr ⟨⟨?_, ?_⟩, (remaining_insert hunits entries).symm⟩
      · intro other hother
        exact ExtTreeMap.mem_insert.mpr (.inr (hknown other (List.mem_cons_of_mem _ hother)))
      · intro k units' hk
        rw [ExtTreeMap.getElem?_insert] at hk
        by_cases heq : entry.1 = k
        · subst heq
          rw [if_pos Std.compare_self] at hk
          cases hk
          omega
        · rw [if_neg fun h => heq (Std.compare_eq_iff_eq.mp h)] at hk
          have := hle k units' hk
          rw [total_cons, if_neg heq] at this
          omega

/-! ### Room -/

theorem remaining_perm (hperm : entries.Perm entries') :
    remaining free entries = remaining free entries' := by
  apply ExtTreeMap.ext_getElem?
  intro k
  simp only [remaining, ExtTreeMap.getElem?_map, total_perm hperm]

/-- There is room for a shape that fits what is left. -/
theorem Room.append {shape : BTreeMap K Nat} (h : Room free entries)
    (hfits : ∀ (k : K) (units : Nat), shape[k]? = some units →
      ∃ left, (remaining free entries)[k]? = some left ∧ units ≤ left) :
    Room free (shape.toList ++ entries) := by
  have hleft : ∀ k units, shape[k]? = some units →
      ∃ f, free[k]? = some f ∧ units ≤ f - total k entries := by
    intro k units hk
    obtain ⟨left, hleft, hle⟩ := hfits k units hk
    rw [remaining, ExtTreeMap.getElem?_map] at hleft
    obtain ⟨f, hf, rfl⟩ := Option.map_eq_some_iff.mp hleft
    exact ⟨f, hf, hle⟩
  refine ⟨?_, ?_⟩
  · intro entry hentry
    rcases List.mem_append.mp hentry with hentry | hentry
    · obtain ⟨f, hf, -⟩ :=
        hleft _ _ (ExtTreeMap.mem_toList_iff_getElem?_eq_some.mp hentry)
      exact BTreeMap.mem_of_lookup hf
    · exact h.known entry hentry
  · intro k units hk
    have hle := h.le k units hk
    rw [total_append, total_toList]
    cases hshape : shape[k]? with
    | none => simpa using hle
    | some wanted =>
      obtain ⟨f, hf, hwanted⟩ := hleft k wanted hshape
      cases hk.symm.trans hf
      rw [Option.getD_some]
      omega

end Capacity

end Flotilla.Lib
