import Flotilla.Lib.BTreeMap

/-!
# Rows with a key

A table kept as a list of rows, searched by a key that no two rows share, and
the finite map that the table stands for.

* `find?_eq_some_iff` : what a search by key finds.
* `lookup_view`, `size_view` : the map of a table.
* `find?_append_row`, `find?_modify` : searches after a row is appended or
  changed in place.
* `view_append`, `view_modify` : appending a row, and changing one in place, put
  one entry into the map.
* `mem_keysWhere` : the keys of a map whose entries satisfy a condition.
-/

namespace Flotilla.Lib.Table

open Std

variable {R K V : Type} [DecidableEq K] {key : R → K} {rows : List R}
  {f : R → R} {r : R}

theorem find?_eq_some_iff (hrows : (rows.map key).Nodup) {k : K} :
    rows.find? (fun r => key r = k) = some r ↔ r ∈ rows ∧ key r = k := by
  constructor
  · exact of_find?
  · rintro ⟨hr, rfl⟩
    cases hfind : rows.find? fun r' => key r' = key r with
    | none => simpa using List.find?_eq_none.mp hfind r hr
    | some r' =>
      rw [List.inj_on_of_nodup_map hrows (of_find? hfind).1 hr (of_find? hfind).2]

theorem find?_append_row {k : K} (hr : ∀ r' ∈ rows, key r' ≠ key r) :
    (rows ++ [r]).find? (fun r => key r = k) =
      if key r = k then some r else rows.find? fun r => key r = k := by
  by_cases hk : key r = k
  · have hnone : rows.find? (fun r => key r = k) = none := by
      rw [List.find?_eq_none]
      intro r' hr'
      simpa [← hk] using hr r' hr'
    simp [hk, hnone]
  · simp [hk]

omit [DecidableEq K] in
theorem map_key_modify (key : R → K) (hf : ∀ r, key (f r) = key r) (i : Nat) :
    (rows.modify i f).map key = rows.map key := by
  apply List.ext_getElem?
  intro j
  simp only [List.getElem?_map, List.getElem?_modify]
  cases rows[j]? with
  | none => rfl
  | some r => by_cases hij : i = j <;> simp [hij, hf]

omit [DecidableEq K] in
theorem mem_modify_iff {i : Nat} (hi : rows[i]? = some r) (hrows : (rows.map key).Nodup) {r' : R} :
    r' ∈ rows.modify i f ↔ r' = f r ∨ r' ∈ rows ∧ key r' ≠ key r := by
  simp only [List.mem_iff_getElem?, List.getElem?_modify]
  constructor
  · rintro ⟨j, hj⟩
    by_cases hij : i = j
    · subst hij
      left
      simpa [hi, eq_comm] using hj
    · right
      have hj' : rows[j]? = some r' := by simpa [hij] using hj
      refine ⟨⟨j, hj'⟩, fun hkey => hij ?_⟩
      have hget : ∀ (n : Nat) x, rows[n]? = some x → (rows.map key)[n]? = some (key x) := by
        intro n x hx
        rw [List.getElem?_map, hx]
        rfl
      have hlt : i < (rows.map key).length := by
        rw [List.length_map]
        exact (List.getElem?_eq_some_iff.mp hi).1
      exact (List.getElem?_inj hlt hrows).mp (by rw [hget i r hi, hget j r' hj', hkey])
  · rintro (rfl | ⟨⟨j, hj⟩, hkey⟩)
    · exact ⟨i, by simp [hi]⟩
    · refine ⟨j, ?_⟩
      have hij : i ≠ j := by
        rintro rfl
        rw [hi] at hj
        cases hj
        exact hkey rfl
      simpa [hij] using hj

theorem find?_modify (hf : ∀ r, key (f r) = key r) {i : Nat} (hi : rows[i]? = some r)
    (hrows : (rows.map key).Nodup) (k : K) :
    (rows.modify i f).find? (fun r => key r = k) =
      if key r = k then some (f r) else rows.find? fun r => key r = k := by
  have hmod : ((rows.modify i f).map key).Nodup := by rwa [map_key_modify key hf]
  by_cases hk : key r = k
  · rw [if_pos hk, find?_eq_some_iff hmod, mem_modify_iff hi hrows]
    exact ⟨.inl rfl, (hf r).trans hk⟩
  · rw [if_neg hk]
    apply Option.ext
    intro r'
    rw [find?_eq_some_iff hmod, find?_eq_some_iff hrows, mem_modify_iff hi hrows]
    constructor
    · rintro ⟨rfl | ⟨hr', -⟩, hk'⟩
      · exact absurd ((hf r).symm.trans hk') hk
      · exact ⟨hr', hk'⟩
    · rintro ⟨hr', hk'⟩
      exact ⟨.inr ⟨hr', fun hkey => hk (hkey.symm.trans hk')⟩, hk'⟩

/-! ### The map of a table -/

section View

variable [Ord K] [TransOrd K] [LawfulEqOrd K] {f : R → V}

/-- The finite map of the rows. -/
def view (key : R → K) (f : R → V) (rows : List R) : BTreeMap K V :=
  ExtTreeMap.ofList (rows.map fun r => (key r, f r)) compare

omit [DecidableEq K] [TransOrd K] in
theorem pairwise_entries (hrows : (rows.map key).Nodup) :
    (rows.map fun r => (key r, f r)).Pairwise fun a b => ¬ compare a.1 b.1 = .eq := by
  rw [List.pairwise_map]
  refine (List.pairwise_map.mp hrows).imp ?_
  intro a b hab heq
  exact hab (compare_eq_iff_eq.mp heq)

theorem lookup_view (hrows : (rows.map key).Nodup) (k : K) :
    (view key f rows)[k]? = (rows.find? fun r => key r = k).map f := by
  cases hfind : rows.find? fun r => key r = k with
  | some r =>
    obtain ⟨hr, rfl⟩ := (find?_eq_some_iff hrows).mp hfind
    exact ExtTreeMap.getElem?_ofList_of_mem Std.ReflCmp.compare_self
      (pairwise_entries hrows) (List.mem_map.mpr ⟨r, hr, rfl⟩)
  | none =>
    refine ExtTreeMap.getElem?_ofList_of_contains_eq_false ?_
    rw [List.map_map, ← Bool.not_eq_true, List.contains_iff_mem, List.mem_map]
    rintro ⟨r, hr, hk⟩
    exact List.find?_eq_none.mp hfind r hr (decide_eq_true hk)

omit [DecidableEq K] in
theorem size_view (hrows : (rows.map key).Nodup) : (view key f rows).size = rows.length := by
  rw [view, ExtTreeMap.size_ofList (pairwise_entries hrows), List.length_map]

theorem view_append {r : R} (hrows : (rows.map key).Nodup) (hr : ∀ r' ∈ rows, key r' ≠ key r) :
    view key f (rows ++ [r]) = (view key f rows).insert (key r) (f r) := by
  have hrows' : ((rows ++ [r]).map key).Nodup := by
    rw [List.map_append, List.nodup_append]
    refine ⟨hrows, List.nodup_singleton _, ?_⟩
    intro k hk k' hk'
    obtain ⟨r', hr', rfl⟩ := List.mem_map.mp hk
    rw [List.mem_singleton.mp hk']
    exact hr r' hr'
  apply ExtTreeMap.ext_getElem?
  intro k
  rw [lookup_view hrows', find?_append_row hr, ExtTreeMap.getElem?_insert, lookup_view hrows]
  by_cases hk : key r = k <;> simp [hk]

theorem view_modify {g : R → R} (hg : ∀ r, key (g r) = key r) {i : Nat} {r : R}
    (hi : rows[i]? = some r) (hrows : (rows.map key).Nodup) :
    view key f (rows.modify i g) = (view key f rows).insert (key r) (f (g r)) := by
  have hmod : ((rows.modify i g).map key).Nodup := by rwa [map_key_modify key hg]
  apply ExtTreeMap.ext_getElem?
  intro k
  rw [lookup_view hmod, find?_modify hg hi hrows, ExtTreeMap.getElem?_insert,
    lookup_view hrows]
  by_cases hk : key r = k <;> simp [hk]

/-- The keys whose entries satisfy `p`. -/
def keysWhere (m : BTreeMap K V) (p : K → V → Bool) : BTreeSet K :=
  ExtTreeSet.ofList (m.filter p).keys compare

theorem mem_keysWhere {p : K → V → Bool} {k : K} :
    k ∈ keysWhere m p ↔ ∃ v, m[k]? = some v ∧ p k v = true := by
  rw [keysWhere, ExtTreeSet.mem_ofList, List.contains_iff_mem, ExtTreeMap.mem_keys,
    ExtTreeMap.mem_iff_isSome_getElem?, ExtTreeMap.getElem?_filter']
  cases m[k]? <;> simp [Option.filter]

end View

end Flotilla.Lib.Table
