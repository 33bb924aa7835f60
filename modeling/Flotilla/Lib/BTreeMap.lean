import Mathlib

/-!
# Ordered maps

`BTreeMap K V` is the extensional ordered map over the key type's own `compare`:
two maps with the same lookups are equal, and the entries are listed in key
order.  The lemmas say what two loops that fill a map leave in it.

* `lookup_firstBy` : `entry(key).or_insert(item)` over a list keeps, for every
  key, the first item of the list with that key.
* `lookup_groupBy` : `entry(key).or_default().push(item)` over a list keeps, for
  every key, the items with that key in list order.
-/

namespace Flotilla.Lib

open Std

/-- An ordered map, as a finite function listed in key order. -/
abbrev BTreeMap (K V : Type) [Ord K] := ExtTreeMap K V compare

/-- An ordered set. -/
abbrev BTreeSet (K : Type) [Ord K] := ExtTreeSet K compare

theorem of_find? {A : Type} {P : A → Prop} [DecidablePred P] {l : List A} {a : A}
    (h : l.find? (fun a => P a) = some a) : a ∈ l ∧ P a :=
  ⟨List.mem_of_find?_eq_some h, by simpa using List.find?_some h⟩

/-- What holds of a list with one more element at its end. -/
theorem forall_mem_concat {A : Type} {P : A → Prop} {l : List A} {a : A} (h : ∀ b ∈ l, P b)
    (ha : P a) : ∀ b ∈ l ++ [a], P b :=
  List.forall_mem_append.mpr ⟨h, List.forall_mem_singleton.mpr ha⟩

/-- A loop to which each item adds what it stands for. -/
theorem foldl_or {S A : Type} {f : S → A → S} {P : S → Prop} {Q : A → Prop}
    (h : ∀ s a, P (f s a) ↔ P s ∨ Q a) (l : List A) (s : S) :
    P (l.foldl f s) ↔ P s ∨ ∃ a ∈ l, Q a := by
  induction l generalizing s with
  | nil => simp
  | cons a l ih =>
    rw [List.foldl_cons, ih, h]
    simp only [List.mem_cons, exists_eq_or_imp, or_assoc]

namespace BTreeMap

variable {K V : Type} [Ord K] [TransOrd K]

/-- The first item of every key: `map.entry(key item).or_insert(item)` in list order. -/
def firstBy (key : V → K) (l : List V) : BTreeMap K V :=
  l.foldl (fun m item => m.insertIfNew (key item) item) ∅

/-- The items of every key: `map.entry(key).or_default().push(item)` in list order. -/
def groupBy (l : List (K × V)) : BTreeMap K (List V) :=
  l.foldl (fun m item => m.alter item.1 fun items => some (items.getD [] ++ [item.2])) ∅

theorem mem_of_lookup {m : BTreeMap K V} {k : K} {v : V} (h : m[k]? = some v) : k ∈ m := by
  rw [ExtTreeMap.mem_iff_isSome_getElem?, h]
  rfl

variable [LawfulEqOrd K]

/-- Erasing changes nothing exactly when the key was not there. -/
theorem erase_eq_self_iff {m : BTreeMap K V} {k : K} : m.erase k = m ↔ k ∉ m := by
  constructor
  · intro h hk
    rw [← h] at hk
    simp at hk
  · intro hk
    apply ExtTreeMap.ext_getElem?
    intro k'
    rw [ExtTreeMap.getElem?_erase]
    by_cases hkk : compare k k' = .eq
    · rw [if_pos hkk]
      rw [compare_eq_iff_eq.mp hkk] at hk
      exact (ExtTreeMap.getElem?_eq_none hk).symm
    · rw [if_neg hkk]

variable {m : BTreeMap K V} {k : K} {v : V}

theorem of_lookup_insert {k' : K} {v' : V} (h : (m.insert k v)[k']? = some v') :
    k = k' ∧ v = v' ∨ k ≠ k' ∧ m[k']? = some v' := by
  rw [ExtTreeMap.getElem?_insert] at h
  split at h
  case isTrue hk => exact .inl ⟨compare_eq_iff_eq.mp hk, Option.some.inj h⟩
  case isFalse hk => exact .inr ⟨fun heq => hk (compare_eq_iff_eq.mpr heq), h⟩

/-- What holds of a new entry and of the old ones that it leaves holds of every entry. -/
theorem forall_insert {P : K → V → Prop} (hnew : P k v)
    (hold : ∀ k' v', k ≠ k' → m[k']? = some v' → P k' v') (k' : K) (v' : V)
    (h : (m.insert k v)[k']? = some v') : P k' v' := by
  rcases of_lookup_insert h with ⟨rfl, rfl⟩ | ⟨hne, h⟩
  · exact hnew
  · exact hold k' v' hne h

theorem of_lookup_erase {k' : K} {v' : V} (h : (m.erase k)[k']? = some v') :
    k ≠ k' ∧ m[k']? = some v' := by
  rw [ExtTreeMap.getElem?_erase] at h
  split at h
  case isTrue => cases h
  case isFalse hk => exact ⟨fun heq => hk (compare_eq_iff_eq.mpr heq), h⟩

theorem insert_eq_self (h : m[k]? = some v) : m.insert k v = m := by
  apply ExtTreeMap.ext_getElem?
  intro k'
  rw [ExtTreeMap.getElem?_insert]
  split
  case isTrue hk =>
    obtain rfl := compare_eq_iff_eq.mp hk
    exact h.symm
  case isFalse => rfl

theorem erase_insert : (m.insert k v).erase k = m.erase k := by
  apply ExtTreeMap.ext_getElem?
  intro k'
  simp only [ExtTreeMap.getElem?_erase, ExtTreeMap.getElem?_insert]
  split <;> rfl

theorem insert_erase : (m.erase k).insert k v = m.insert k v := by
  apply ExtTreeMap.ext_getElem?
  intro k'
  simp only [ExtTreeMap.getElem?_insert, ExtTreeMap.getElem?_erase]
  split <;> rfl

theorem lookup_insert_new (h : k ∉ m) {k' : K} {v' : V} :
    (m.insert k v)[k']? = some v' ↔ m[k']? = some v' ∨ k' = k ∧ v' = v := by
  rw [ExtTreeMap.getElem?_insert]
  by_cases hk : k = k'
  · subst hk
    have hnone : m[k]? = none := ExtTreeMap.getElem?_eq_none h
    rw [if_pos Std.compare_self, hnone]
    simp [eq_comm]
  · rw [if_neg fun heq => hk (Std.compare_eq_iff_eq.mp heq)]
    simp [Ne.symm hk]

/-- Keys that are new stay new when another one is put in. -/
theorem forall_not_mem_insert {W : Type} {l : List (K × W)} (hl : k ∉ l.map Prod.fst)
    (h : ∀ entry ∈ l, entry.1 ∉ m) : ∀ entry ∈ l, entry.1 ∉ m.insert k v := by
  intro entry hentry hmem
  rcases ExtTreeMap.mem_insert.mp hmem with heq | hmem
  · exact hl (List.mem_map.mpr ⟨entry, hentry, (compare_eq_iff_eq.mp heq).symm⟩)
  · exact h entry hentry hmem

theorem map_empty {W : Type} (f : V → W) : (∅ : BTreeMap K V).map (fun _ v => f v) = ∅ := by
  apply ExtTreeMap.ext_getElem?
  intro k
  simp

/-- Mapping the values of a map commutes with putting one in. -/
theorem map_insert {W : Type} (f : V → W) :
    (m.insert k v).map (fun _ v => f v) = (m.map fun _ v => f v).insert k (f v) := by
  apply ExtTreeMap.ext_getElem?
  intro k'
  simp only [ExtTreeMap.getElem?_map, ExtTreeMap.getElem?_insert]
  split <;> rfl

/-- Mapping the values of a map commutes with taking one out. -/
theorem map_erase {W : Type} (f : V → W) :
    (m.erase k).map (fun _ v => f v) = (m.map fun _ v => f v).erase k := by
  apply ExtTreeMap.ext_getElem?
  intro k'
  simp only [ExtTreeMap.getElem?_map, ExtTreeMap.getElem?_erase]
  split <;> rfl

variable [DecidableEq K]

theorem lookup_firstBy (key : V → K) (l : List V) :
    (firstBy key l)[k]? = l.find? (fun item => key item = k) := by
  have hfold : ∀ (l : List V) (m : BTreeMap K V),
      (l.foldl (fun m item => m.insertIfNew (key item) item) m)[k]? =
        m[k]?.or (l.find? fun item => key item = k) := by
    intro l
    induction l with
    | nil => simp
    | cons item l ih =>
      intro m
      rw [List.foldl_cons, ih, ExtTreeMap.getElem?_insertIfNew]
      by_cases hk : key item = k
      · subst hk
        cases hm : m[key item]? <;> simp [ExtTreeMap.mem_iff_isSome_getElem?, hm]
      · simp [hk]
  simpa [firstBy] using hfold l ∅

theorem lookup_groupBy (l : List (K × V)) :
    (groupBy l)[k]? =
      match l.filterMap fun item => if item.1 = k then some item.2 else none with
      | [] => none
      | items => some items := by
  have hfold : ∀ (l : List (K × V)) (m : BTreeMap K (List V)),
      (l.foldl (fun m item => m.alter item.1 fun items => some (items.getD [] ++ [item.2])) m)[k]? =
        match l.filterMap fun item => if item.1 = k then some item.2 else none with
        | [] => m[k]?
        | items => some (m[k]?.getD [] ++ items) := by
    intro l
    induction l with
    | nil => simp
    | cons item l ih =>
      intro m
      rw [List.foldl_cons, ih, ExtTreeMap.getElem?_alter]
      by_cases hk : item.1 = k
      · subst hk
        cases hl : l.filterMap fun item' => if item'.1 = item.1 then some item'.2 else none <;>
          simp [hl]
      · simp [hk]
  simpa [groupBy] using hfold l ∅

end BTreeMap

end Flotilla.Lib
