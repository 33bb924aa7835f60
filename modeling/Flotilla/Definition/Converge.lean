import Flotilla.Definition.View
import Flotilla.Definition.Kinds

/-!
# All roots read the same definition

Two roots that hold the same rows hold them in different ways: one row is the
reader's own and the others are replicas, each with the time this reader last
synced it.  The sync time reaches the merge only as the written-at time of rows
without causal metadata, and the merge compares dots, seen vectors and values
only.  So the written-at times are erased (`untimed`), every step of the field
merge commutes with the erasure, and the rest is that a list with pairwise
different origins sorts to one order.

`DefinitionView` is what the readers must agree on, and
`mergeSources_view_eq` says they do, including on which error they report.
-/

namespace Flotilla.Definition

open Lib Std

variable {V S T : Type}

/-- What every root must read alike. -/
structure DefinitionView (V S T : Type) where
  name : String
  spec : S
  labels : BTreeMap String String
  annotations : BTreeMap String String
  dots : BTreeMap FieldPath CausalDot
  conflictValues : BTreeMap FieldPath (List V)
  resourceVersion : String
  live : Bool
  status : Option T

def viewOf (object : ResourceObject V S T) : DefinitionView V S T where
  name := object.metadata.name
  spec := object.spec
  labels := object.metadata.labels
  annotations := object.metadata.annotations
  dots := match object.metadata.merge with
    | some merge => merge.fields.map fun _ field => field.dot
    | none => ∅
  conflictValues := match object.metadata.merge with
    | some merge => merge.conflicts.map fun _ siblings => siblings.map (·.value)
    | none => ∅
  resourceVersion := object.metadata.resourceVersion
  live := definitionIsVisible object
  status := object.status

/-- The row without its place: who wrote it and what it says. -/
def rowOf (source : DefinitionSource V S T) : NodeId × ResourceObject V S T :=
  (source.origin, source.object)

/-! ### Erasing the written-at times -/

def untimed (c : FieldCandidate V) : FieldCandidate V :=
  { c with metadata := { c.metadata with writtenAt := 0 } }

theorem causallyMaximal_untimed (cs : List (FieldCandidate V)) :
    causallyMaximal (cs.map untimed) = (causallyMaximal cs).map untimed := by
  rw [causallyMaximal, causallyMaximal, List.filter_map]
  congr 1
  apply List.filter_congr
  intro c _
  simp only [Function.comp_apply, List.any_map]
  rfl

variable [JsonValue V]

theorem mergeField_untimed (cs : List (FieldCandidate V)) :
    mergeField (cs.map untimed) = (mergeField cs).map untimed := by
  have hfirst : ∀ l,
      BTreeMap.firstBy (fun c => JsonValue.text c.value) (l.map untimed) =
        (BTreeMap.firstBy (fun c : FieldCandidate V => JsonValue.text c.value) l).map
          fun _ c => untimed c := by
    intro l
    apply ExtTreeMap.ext_getElem?
    intro k
    rw [BTreeMap.lookup_firstBy, ExtTreeMap.getElem?_map, BTreeMap.lookup_firstBy,
      List.find?_map]
    rfl
  have hsort : ∀ l : List (FieldCandidate V),
      (l.insertionSort fun a b => dotLe a.metadata.dot b.metadata.dot).map untimed =
        (l.map untimed).insertionSort fun a b => dotLe a.metadata.dot b.metadata.dot :=
    fun l => List.map_insertionSort _ _ untimed l fun _ _ _ _ => Iff.rfl
  rw [mergeField, mergeField, causallyMaximal_untimed, hfirst, ExtTreeMap.toList_map,
    List.map_map, hsort, List.map_map]
  rfl

theorem candidateOf_untimed (K : DefinitionKind V S) (path : FieldPath)
    {source source' : DefinitionSource V S T} (h : rowOf source = rowOf source') :
    (candidateOf K path source).map untimed = (candidateOf K path source').map untimed := by
  obtain ⟨object, origin, syncedAt⟩ := source
  obtain ⟨object', origin', syncedAt'⟩ := source'
  obtain ⟨rfl, rfl⟩ := Prod.mk.inj h
  have hmeta : ∀ p, { fieldMetadata ⟨object, origin, syncedAt⟩ p with writtenAt := 0 } =
      { fieldMetadata ⟨object, origin, syncedAt'⟩ p with writtenAt := 0 } := by
    intro p
    simp only [fieldMetadata]
    cases object.metadata.merge.bind fun merge => merge.fields[p]? <;> rfl
  cases path with
  | deleted =>
    simp only [candidateOf, deletionCandidate, Option.map_some, untimed, hmeta]
  | spec field =>
    simp only [candidateOf, specFields, Option.map_map]
    congr 1
    funext value
    simp only [Function.comp_apply, untimed, hmeta]

/-! ### Same rows, same order -/

section SameRows

theorem fieldRows_untimed (K : DefinitionKind V S) (path : FieldPath)
    (s : List (DefinitionSource V S T)) :
    (fieldRows K path s).map (Prod.map id untimed) =
      (s.map rowOf).filterMap fun row =>
        (candidateOf K path ⟨row.2, row.1, none⟩).map fun c => (row.1, untimed c) := by
  rw [fieldRows, List.map_filterMap, List.filterMap_map]
  apply List.filterMap_congr
  intro source _
  have h := candidateOf_untimed K path
    (show rowOf source = rowOf ⟨source.object, source.origin, none⟩ from rfl)
  simp only [Function.comp_apply, rowOf, Option.map_map]
  have hpair := congrArg (Option.map fun c => (source.origin, c)) h
  simp only [Option.map_map] at hpair
  exact hpair

variable {K : DefinitionKind V S} {s₁ s₂ : List (DefinitionSource V S T)}
  (hrows : (s₁.map rowOf).Perm (s₂.map rowOf))

include hrows

theorem fieldRows_eq_nil_iff (path : FieldPath) :
    fieldRows K path s₁ = [] ↔ fieldRows K path s₂ = [] := by
  have hperm := hrows.filterMap fun row =>
    (candidateOf K path ⟨row.2, row.1, none⟩).map fun c => (row.1, untimed c)
  rw [← fieldRows_untimed, ← fieldRows_untimed] at hperm
  rw [← List.length_eq_zero_iff, ← List.length_eq_zero_iff]
  have hlen := hperm.length_eq
  rw [List.length_map, List.length_map] at hlen
  rw [hlen]

omit [JsonValue V] in
theorem encodes_of_rows (h : Encodes K s₁) : Encodes K s₂ := by
  intro source hsource
  have hmem : rowOf source ∈ s₁.map rowOf := hrows.mem_iff.mpr (List.mem_map_of_mem hsource)
  obtain ⟨source', hsource', hrow⟩ := List.mem_map.mp hmem
  have hobject : source'.object = source.object := congrArg Prod.snd hrow
  have hok := h source' hsource'
  rw [hobject] at hok
  exact specObject_eq_ok hok

variable (hnodup : (s₁.map (·.origin)).Nodup)

include hnodup

omit [JsonValue V] in
theorem rows_sorted_eq : (sortByOrigin s₁).map rowOf = (sortByOrigin s₂).map rowOf := by
  have hmap : ∀ s : List (DefinitionSource V S T), (sortByOrigin s).map rowOf =
      (s.map rowOf).insertionSort fun left right => left.1 ≤ right.1 := by
    intro s
    exact List.map_insertionSort _ _ rowOf s fun _ _ _ _ => Iff.rfl
  rw [hmap, hmap]
  refine insertionSort_eq_of_perm Prod.fst hrows ?_
  rw [List.map_map]
  exact hnodup

theorem fieldValues_untimed_eq (path : FieldPath) :
    (fieldValues K path s₁).map untimed = (fieldValues K path s₂).map untimed := by
  have hordered : ∀ s : List (DefinitionSource V S T),
      (orderedCandidates (fieldRows K path s)).map untimed =
        (((fieldRows K path s).map (Prod.map id untimed)).insertionSort
          fun left right => left.1 ≤ right.1).map Prod.snd := by
    intro s
    have hsort := List.map_insertionSort (fun left right =>
      left.1 ≤ right.1) (fun left right => left.1 ≤ right.1)
      (Prod.map id untimed) (fieldRows K path s) fun _ _ _ _ => Iff.rfl
    rw [orderedCandidates, List.map_map, ← hsort, List.map_map]
    rfl
  rw [fieldValues, fieldValues, ← mergeField_untimed, ← mergeField_untimed, hordered, hordered]
  congr 2
  refine insertionSort_eq_of_perm Prod.fst ?_ ?_
  · rw [fieldRows_untimed, fieldRows_untimed]
    exact hrows.filterMap _
  · rw [List.map_map, List.Nodup, List.pairwise_map, fieldRows, List.pairwise_filterMap]
    refine (List.pairwise_map.mp hnodup).imp fun hne row hrow row' hrow' => ?_
    obtain ⟨c, -, rfl⟩ := Option.map_eq_some_iff.mp hrow
    obtain ⟨c', -, rfl⟩ := Option.map_eq_some_iff.mp hrow'
    exact hne

theorem mergedSpec_eq : mergedSpec K s₁ = mergedSpec K s₂ := by
  apply ExtTreeMap.ext_getElem?
  intro field
  have huntimed := fieldValues_untimed_eq (K := K) hrows hnodup (.spec field)
  have hhead := congrArg (fun l => l.head?.map (·.value)) huntimed
  simp only [List.head?_map, Option.map_map] at hhead
  rw [lookup_mergedSpec, lookup_mergedSpec]
  exact hhead

theorem length_fieldValues_eq (path : FieldPath) :
    (fieldValues K path s₁).length = (fieldValues K path s₂).length := by
  have hlen := congrArg List.length (fieldValues_untimed_eq (K := K) hrows hnodup path)
  rwa [List.length_map, List.length_map] at hlen

/-- The dots, the conflict values and the deletion verdict agree. -/
theorem merge_view_eq :
    (mergedFields (mergedValues K s₁)).map (fun _ field => field.dot) =
        (mergedFields (mergedValues K s₂)).map (fun _ field => field.dot) ∧
      (mergeConflicts (mergedValues K s₁)).map (fun _ siblings => siblings.map (·.value)) =
        (mergeConflicts (mergedValues K s₂)).map (fun _ siblings => siblings.map (·.value)) ∧
      (chosenDeletion (mergedValues K s₁)).isSome =
        (chosenDeletion (mergedValues K s₂)).isSome := by
  refine ⟨?_, ?_, ?_⟩
  · apply ExtTreeMap.ext_getElem?
    intro path
    have hhead := congrArg (fun l => l.head?.map (·.metadata.dot))
      (fieldValues_untimed_eq (K := K) hrows hnodup path)
    simp only [List.head?_map, Option.map_map] at hhead
    rw [ExtTreeMap.getElem?_map, ExtTreeMap.getElem?_map, lookup_mergedFields,
      lookup_mergedFields, Option.map_map, Option.map_map]
    exact hhead
  · apply ExtTreeMap.ext_getElem?
    intro path
    have hvalues := congrArg (List.map (·.value))
      (fieldValues_untimed_eq (K := K) hrows hnodup path)
    simp only [List.map_map] at hvalues
    rw [ExtTreeMap.getElem?_map, ExtTreeMap.getElem?_map, lookup_mergeConflicts,
      lookup_mergeConflicts, length_fieldValues_eq hrows hnodup path]
    by_cases hlen : 1 < (fieldValues K path s₂).length
    · rw [if_pos hlen, if_pos hlen, Option.map_some, Option.map_some, List.map_map, List.map_map]
      exact congrArg some hvalues
    · rw [if_neg hlen, if_neg hlen]
  · have hhead := congrArg (fun l => l.head?.map (·.value))
      (fieldValues_untimed_eq (K := K) hrows hnodup .deleted)
    simp only [List.head?_map, Option.map_map] at hhead
    have hvalue : (fieldValues K .deleted s₁).head?.map (·.value) =
        (fieldValues K .deleted s₂).head?.map (·.value) := hhead
    have hiff : ∀ s : List (DefinitionSource V S T),
        (chosenDeletion (mergedValues K s)).isSome = true ↔
          ∃ v, (fieldValues K .deleted s).head?.map (·.value) = some v ∧
            JsonValue.asBool v = some true := by
      intro s
      rw [isSome_chosenDeletion]
      cases (fieldValues K .deleted s).head? <;> simp
    rw [Bool.eq_iff_iff, hiff, hiff, hvalue]

theorem survivors_iff :
    ((mergedValues K s₁).toList.any fun entry => entry.2.isEmpty) =
      (mergedValues K s₂).toList.any fun entry => entry.2.isEmpty := by
  have hvalues : ∀ path, fieldValues K path s₁ = [] ↔ fieldValues K path s₂ = [] := by
    intro path
    rw [← List.length_eq_zero_iff, length_fieldValues_eq hrows hnodup path,
      List.length_eq_zero_iff]
  rw [← Bool.not_inj_iff, Bool.eq_iff_iff, Bool.not_eq_true', Bool.not_eq_true',
    any_isEmpty_mergedValues, any_isEmpty_mergedValues]
  apply forall_congr'
  intro path
  rw [Ne, Ne, Ne, Ne, fieldRows_eq_nil_iff hrows path, hvalues path]

theorem viewOf_mergedObject_eq {source₁ source₂ : DefinitionSource V S T}
    (hobject : source₁.object = source₂.object) (spec : S) :
    viewOf (mergedObject K s₁ source₁ spec) = viewOf (mergedObject K s₂ source₂ spec) := by
  obtain ⟨hdots, hconflicts, hdeleted⟩ := merge_view_eq (K := K) hrows hnodup
  have hversion : mergedVersion (sortByOrigin s₁) = mergedVersion (sortByOrigin s₂) := by
    have hlist := congrArg (List.map fun row =>
      row.1 ++ ":" ++ row.2.metadata.resourceVersion) (rows_sorted_eq hrows hnodup)
    rw [List.map_map, List.map_map] at hlist
    exact congrArg (",".intercalate ·) hlist
  have hfield := congrArg (fun m => m.contains FieldPath.deleted) hdots
  have hconflict := congrArg (fun m => m.contains FieldPath.deleted) hconflicts
  simp only [ExtTreeMap.contains_map] at hfield hconflict
  simp only [viewOf, mergedObject, definitionIsVisible, Option.any_some, hobject, hversion, hdots,
    hconflicts, hdeleted, hfield, hconflict]

/-- Rows that do not encode are reported alike. -/
theorem mergeSources_error_eq (h : ¬ Encodes K s₁) :
    ∃ e, mergeSources K s₁ = .error e ∧ mergeSources K s₂ = .error e := by
  have hfail : ∀ s : List (DefinitionSource V S T), ∀ e,
      (sortByOrigin s).mapM (fun source => do
        return rowCandidates source (← specObject K source.object.spec)) = Except.error e →
      mergeSources K s = .error e := by
    intro s e he
    rw [mergeSources, fieldCandidates, he]
    rfl
  cases hmap : (sortByOrigin s₁).mapM (fun source => do
      return rowCandidates source (← specObject K source.object.spec)) with
  | ok rows =>
    refine absurd ?_ h
    intro source hsource
    obtain ⟨row, hrow⟩ := mapM_eq_ok hmap source (mem_sortByOrigin.mpr hsource)
    obtain ⟨fields, hfields, -⟩ := bind_eq_ok hrow
    exact specObject_eq_ok hfields
  | error e =>
    refine ⟨e, hfail s₁ e hmap, hfail s₂ e ?_⟩
    refine mapM_error_congr ?_ (rows_sorted_eq hrows hnodup) hmap
    intro source source' hrow e' herror
    have hobject : source.object = source'.object := congrArg Prod.snd hrow
    rw [← hobject]
    cases hspec : specObject K source.object.spec with
    | error e'' =>
      rw [hspec] at herror
      exact herror
    | ok fields =>
      rw [hspec] at herror
      cases herror

end SameRows

/-- **All roots that hold the same rows read the same definition**, whatever the
order they hold them in, whichever row is their own and whenever they synced the
others. -/
theorem mergeSources_view_eq {K : DefinitionKind V S} {s₁ s₂ : List (DefinitionSource V S T)}
    (hrows : (s₁.map rowOf).Perm (s₂.map rowOf)) (hnodup : (s₁.map (·.origin)).Nodup) :
    (mergeSources K s₁).map viewOf = (mergeSources K s₂).map viewOf := by
  by_cases hencodes : Encodes K s₁
  · rw [mergeSources_of_encodes hencodes, mergeSources_of_encodes (encodes_of_rows hrows hencodes),
      survivors_iff hrows hnodup, mergedSpec_eq hrows hnodup]
    have hhead := congrArg List.head? (rows_sorted_eq hrows hnodup)
    rw [List.head?_map, List.head?_map] at hhead
    by_cases hempty : (mergedValues K s₂).toList.any fun entry => entry.2.isEmpty
    · rw [if_pos hempty, if_pos hempty]
    · rw [if_neg hempty, if_neg hempty]
      cases h₁ : (sortByOrigin s₁).head? with
      | none =>
        cases h₂ : (sortByOrigin s₂).head? with
        | none => rfl
        | some source₂ => rw [h₁, h₂] at hhead; cases hhead
      | some source₁ =>
        cases h₂ : (sortByOrigin s₂).head? with
        | none => rw [h₁, h₂] at hhead; cases hhead
        | some source₂ =>
          rw [h₁, h₂] at hhead
          obtain ⟨-, hobject⟩ := Prod.mk.inj (Option.some.inj hhead)
          cases hspec : K.fromObject (mergedSpec K s₂) with
          | error e => rfl
          | ok spec => exact congrArg Except.ok (viewOf_mergedObject_eq hrows hnodup hobject spec)
  · obtain ⟨e, h₁, h₂⟩ := mergeSources_error_eq hrows hnodup hencodes
    rw [h₁, h₂]

/-- A row from before causal metadata, read at root `a` and synced to root `b`. -/
def legacyRow (root project version : String) (syncedAt : Option Timestamp) :
    DefinitionSource Json FleetDesignationSpec Unit where
  object := {
    metadata := { name := "fleet", ns := "flotilla", resourceVersion := version
                  creationTimestamp := 10 }
    spec := { project }
    status := none }
  origin := root
  syncedAt := syncedAt

theorem mergeSources_view_eq_two_roots :
    (mergeSources fleetDesignation
        [legacyRow "a" "harbour" "2" none, legacyRow "b" "dock" "5" (some 77)]).map viewOf =
      (mergeSources fleetDesignation
        [legacyRow "b" "dock" "5" none, legacyRow "a" "harbour" "2" (some 30)]).map viewOf :=
  mergeSources_view_eq (List.Perm.swap _ _ _) (by decide)

end Flotilla.Definition
