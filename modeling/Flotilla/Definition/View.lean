import Flotilla.Definition.Field

/-!
# What a merge returns, field by field

`mergeSources` collects all candidates in one map and fills four results in one
loop.  This file says what it returns one field at a time: `fieldRows` are the
rows' candidates for a path, with their origins, and `fieldValues` is the merge
of that one path.  `Merged K sources object` is the whole description of a
successful merge in those words, and `merged_of_mergeSources` its proof; later
files never unfold the loop again.

`mergeSources_total` is the other half: when every row's spec encodes and every
field has a survivor, the merge can only fail to decode the mixed spec.
-/

namespace Flotilla.Definition

open Lib Std

variable {V S T : Type} [JsonValue V] (K : DefinitionKind V S)

-- The fields of a row, none if its spec does not encode.
def specFields (source : DefinitionSource V S T) : BTreeMap String V :=
  match specObject K source.object.spec with
  | .ok fields => fields
  | .error _ => ∅

def candidateOf (path : FieldPath) (source : DefinitionSource V S T) : Option (FieldCandidate V) :=
  match path with
  | .deleted => some (deletionCandidate source)
  | .spec field => (specFields K source)[field]?.map fun value => ⟨value, fieldMetadata source path⟩

/-- The candidates of a path with their origins. -/
def fieldRows (path : FieldPath) (sources : List (DefinitionSource V S T)) :
    List (NodeId × FieldCandidate V) :=
  sources.filterMap fun source => (candidateOf K path source).map fun c => (source.origin, c)

def orderedCandidates (rows : List (NodeId × FieldCandidate V)) : List (FieldCandidate V) :=
  (rows.insertionSort fun left right => left.1 ≤ right.1).map Prod.snd

/-- The surviving values of a path, the chosen one first. -/
def fieldValues (path : FieldPath) (sources : List (DefinitionSource V S T)) :
    List (FieldCandidate V) :=
  mergeField (orderedCandidates (fieldRows K path sources))

def mergedValues (sources : List (DefinitionSource V S T)) :
    BTreeMap FieldPath (List (FieldCandidate V)) :=
  (BTreeMap.groupBy ((sortByOrigin sources).map fun source =>
    rowCandidates source (specFields K source)).flatten).map fun _ cs => mergeField cs

/-! ### The candidate map -/

section Lookup

variable (sources : List (DefinitionSource V S T)) (path : FieldPath)

theorem filterMap_rowCandidates (source : DefinitionSource V S T) :
    ((rowCandidates source (specFields K source)).filterMap fun item =>
      if item.1 = path then some item.2 else none) = (candidateOf K path source).toList := by
  rw [rowCandidates, List.filterMap_append, List.filterMap_map]
  cases path with
  | deleted =>
    have hnone : (specFields K source).toList.filterMap ((fun item : FieldPath × FieldCandidate V =>
        if item.1 = FieldPath.deleted then some item.2 else none) ∘ fun entry =>
          (FieldPath.spec entry.1, ⟨entry.2, fieldMetadata source (.spec entry.1)⟩)) = [] := by
      rw [List.filterMap_eq_nil_iff]
      intro entry _
      rfl
    rw [hnone]
    rfl
  | spec field =>
    have hlast : ([(FieldPath.deleted, deletionCandidate source)].filterMap fun item =>
        if item.1 = FieldPath.spec field then some item.2 else none) = [] := rfl
    rw [hlast, List.append_nil]
    refine Eq.trans ?_ (filterMap_toList_key (specFields K source) field
      fun value => (⟨value, fieldMetadata source (.spec field)⟩ : FieldCandidate V))
    apply List.filterMap_congr
    intro entry _
    by_cases hf : entry.1 = field
    · simp [hf]
    · simp [hf]

theorem sorted_candidates :
    (sortByOrigin sources).filterMap (candidateOf K path) =
      orderedCandidates (fieldRows K path sources) := by
  have hsort := filterMap_insertionSort (fun source => source.origin)
    (fun row => row.1)
    (fun source => (candidateOf K path source).map fun c => (source.origin, c))
    (by
      intro source row h
      obtain ⟨c, -, rfl⟩ := Option.map_eq_some_iff.mp h
      rfl)
    sources
  rw [orderedCandidates, fieldRows, ← hsort, List.map_filterMap, sortByOrigin]
  apply List.filterMap_congr
  intro source _
  cases candidateOf K path source <;> rfl

theorem lookup_mergedValues :
    (mergedValues K sources)[path]? =
      if fieldRows K path sources = [] then none else some (fieldValues K path sources) := by
  have hgroup : (((sortByOrigin sources).map fun source =>
      rowCandidates source (specFields K source)).flatten.filterMap fun item =>
        if item.1 = path then some item.2 else none) =
      orderedCandidates (fieldRows K path sources) := by
    rw [← sorted_candidates, List.filterMap_flatten, List.map_map]
    have hrow : (List.filterMap (fun item =>
        if item.1 = path then some item.2 else none) ∘
        fun source : DefinitionSource V S T => rowCandidates source (specFields K source)) =
        fun source => (candidateOf K path source).toList := by
      funext source
      exact filterMap_rowCandidates K path source
    rw [hrow]
    induction sortByOrigin sources with
    | nil => rfl
    | cons source l ih =>
      rw [List.map_cons, List.flatten_cons, ih, List.filterMap_cons]
      cases candidateOf K path source <;> rfl
  rw [mergedValues, ExtTreeMap.getElem?_map, BTreeMap.lookup_groupBy, hgroup, fieldValues]
  have hnil : orderedCandidates (fieldRows K path sources) = [] ↔
      fieldRows K path sources = [] := by
    rw [orderedCandidates, List.map_eq_nil_iff, ← List.length_eq_zero_iff,
      List.length_insertionSort, List.length_eq_zero_iff]
  by_cases hrows : fieldRows K path sources = []
  · rw [if_pos hrows, hnil.mpr hrows]
    rfl
  · rw [if_neg hrows]
    cases hcs : orderedCandidates (fieldRows K path sources) with
    | nil => exact absurd (hnil.mp hcs) hrows
    | cons c cs => rfl

/-! ### The results of the merge -/

/-- The mixed spec a merge decodes. -/
def mergedSpec : BTreeMap String V :=
  chosenSpec (mergedValues K sources)

/-- What the loop keeps of each field, where it keeps nothing of a field without a value. -/
theorem lookup_filterMap {W : Type} (keep : FieldPath → List (FieldCandidate V) → Option W)
    (hkeep : keep path [] = none) :
    ((mergedValues K sources).filterMap keep)[path]? = keep path (fieldValues K path sources) := by
  rw [ExtTreeMap.getElem?_filterMap', lookup_mergedValues]
  by_cases hrows : fieldRows K path sources = []
  · rw [if_pos hrows, fieldValues, hrows]
    exact hkeep.symm
  · rw [if_neg hrows]
    rfl

theorem lookup_mergedFields :
    (mergedFields (mergedValues K sources))[path]? =
      (fieldValues K path sources).head?.map (·.metadata) :=
  lookup_filterMap K sources path _ rfl

theorem lookup_mergeConflicts :
    (mergeConflicts (mergedValues K sources))[path]? =
      if 1 < (fieldValues K path sources).length then
        some ((fieldValues K path sources).map sibling)
      else none :=
  lookup_filterMap K sources path _ rfl

/-- What a spec holds at a path. -/
def specAt (spec : BTreeMap String V) : FieldPath → Option V
  | .spec field => spec[field]?
  | .deleted => none

/-- What the loop leaves at the path of an entry. -/
def shownAt : FieldPath × List (FieldCandidate V) → Option V → Option V
  | (.spec _, chosen :: _), _ => some chosen.value
  | _, value => value

theorem lookup_mergedSpec (field : String) :
    (mergedSpec K sources)[field]? = (fieldValues K (.spec field) sources).head?.map (·.value) := by
  -- The loop inserts at `field` only from the entry of `spec.<field>`, which comes once.
  have hkey : ∀ spec (entry : FieldPath × List (FieldCandidate V)),
      specAt (insertChosen spec entry.1 entry.2) entry.1 = shownAt entry (specAt spec entry.1) := by
    rintro spec ⟨_ | _, _ | _⟩
    case spec.cons => exact ExtTreeMap.getElem?_insert_self
    all_goals rfl
  have hother : ∀ spec (entry : FieldPath × List (FieldCandidate V)) path, entry.1 ≠ path →
      specAt (insertChosen spec entry.1 entry.2) path = specAt spec path := by
    rintro spec ⟨_ | _, _ | _⟩ (_ | _) hne
    case spec.cons.spec => simp_all [specAt, insertChosen, ExtTreeMap.getElem?_insert]
    all_goals rfl
  rw [mergedSpec, chosenSpec, ExtTreeMap.foldl_eq_foldl_toList]
  have hlookup := lookup_mergedValues K sources (.spec field)
  by_cases hrows : fieldRows K (.spec field) sources = []
  · rw [if_pos hrows] at hlookup
    rw [fieldValues, hrows]
    refine view_foldl_other (k := .spec field) specAt hother (fun entry hentry hpath => ?_) ∅
    rw [ExtTreeMap.mem_toList_iff_getElem?_eq_some, hpath, hlookup] at hentry
    cases hentry
  · rw [if_neg hrows] at hlookup
    have hmem := ExtTreeMap.mem_toList_iff_getElem?_eq_some.mpr hlookup
    refine (view_foldl_key specAt hkey hother (nodup_keys_toList _) hmem ∅).trans ?_
    cases fieldValues K (.spec field) sources <;> rfl

/-- A path is in conflict exactly when two values of it survive. -/
theorem mem_mergeConflicts :
    path ∈ mergeConflicts (mergedValues K sources) ↔ 1 < (fieldValues K path sources).length := by
  rw [ExtTreeMap.mem_iff_isSome_getElem?, lookup_mergeConflicts]
  by_cases hlen : 1 < (fieldValues K path sources).length
  · simp [hlen]
  · simp [hlen]

/-- The merged object is deleted exactly when the chosen deletion marker is true. -/
theorem isSome_chosenDeletion :
    (chosenDeletion (mergedValues K sources)).isSome = true ↔
      ∃ chosen, (fieldValues K .deleted sources).head? = some chosen ∧
        JsonValue.asBool chosen.value = some true := by
  rw [chosenDeletion, lookup_mergedValues]
  by_cases hrows : fieldRows K .deleted sources = []
  · rw [if_pos hrows, fieldValues, hrows]
    simp [orderedCandidates, mergeField_eq_nil.mpr (show causallyMaximal ([] : List
      (FieldCandidate V)) = [] from rfl)]
  · rw [if_neg hrows]
    cases hvalues : fieldValues K .deleted sources with
    | nil => simp
    | cons chosen rest =>
      cases hb : JsonValue.asBool chosen.value with
      | none => simp [hb]
      | some b => cases b <;> simp [hb]

end Lookup

/-- The object a merge assembles: the first row's, with the merged spec and stamps. -/
def mergedObject (sources : List (DefinitionSource V S T)) (source : DefinitionSource V S T)
    (spec : S) : ResourceObject V S T where
  metadata := { source.object.metadata with
    resourceVersion := mergedVersion (sortByOrigin sources)
    deletionTimestamp := chosenDeletion (mergedValues K sources)
    merge := some {
      fields := mergedFields (mergedValues K sources)
      seen := causalContext sources
      conflicts := mergeConflicts (mergedValues K sources) } }
  spec := spec
  status := source.object.status

/-- What a successful merge of `sources` returns. -/
structure Merged (K : DefinitionKind V S) (sources : List (DefinitionSource V S T))
    (object : ResourceObject V S T) : Prop where
  encodes : ∀ source ∈ sources, specObject K source.object.spec = .ok (specFields K source)
  survivor : ∀ path, fieldRows K path sources ≠ [] → fieldValues K path sources ≠ []
  decodes : K.fromObject (mergedSpec K sources) = .ok object.spec
  first : ∃ source, (sortByOrigin sources).head? = some source ∧
    object = mergedObject K sources source object.spec

/-- Every row's spec encodes. -/
def Encodes (sources : List (DefinitionSource V S T)) : Prop :=
  ∀ source ∈ sources, specObject K source.object.spec = .ok (specFields K source)

variable {K} {sources : List (DefinitionSource V S T)}

omit [JsonValue V] in
theorem mem_sortByOrigin {source : DefinitionSource V S T} :
    source ∈ sortByOrigin sources ↔ source ∈ sources :=
  List.mem_insertionSort _

omit [JsonValue V] in
theorem specObject_eq_ok {source : DefinitionSource V S T} {fields : BTreeMap String V}
    (h : specObject K source.object.spec = .ok fields) :
    specObject K source.object.spec = .ok (specFields K source) := by
  rw [specFields, h]

theorem fieldCandidates_eq_ok (h : Encodes K sources) :
    fieldCandidates K (sortByOrigin sources) =
      .ok (BTreeMap.groupBy ((sortByOrigin sources).map fun source =>
        rowCandidates source (specFields K source)).flatten) := by
  have hrows : (sortByOrigin sources).mapM (fun source => do
      return rowCandidates source (← specObject K source.object.spec)) =
      (Except.ok ((sortByOrigin sources).map fun source =>
        rowCandidates source (specFields K source)) : Except ResourceError _) := by
    apply mapM_ok
    intro source hsource
    rw [h source (mem_sortByOrigin.mp hsource)]
    rfl
  rw [fieldCandidates, hrows]
  rfl

theorem encodes_of_fieldCandidates {m : BTreeMap FieldPath (List (FieldCandidate V))}
    (h : fieldCandidates K (sortByOrigin sources) = .ok m) : Encodes K sources := by
  intro source hsource
  obtain ⟨rows, hrows, -⟩ := bind_eq_ok h
  obtain ⟨row, hrow⟩ := mapM_eq_ok hrows source (mem_sortByOrigin.mpr hsource)
  obtain ⟨fields, hfields, -⟩ := bind_eq_ok hrow
  exact specObject_eq_ok hfields

/-- No field is left without a survivor, as the loop tests it. -/
theorem any_isEmpty_mergedValues :
    ((mergedValues K sources).toList.any fun entry => entry.2.isEmpty) = false ↔
      ∀ path, fieldRows K path sources ≠ [] → fieldValues K path sources ≠ [] := by
  rw [List.any_eq_false]
  constructor
  · intro h path hrows hnil
    have hlookup := lookup_mergedValues K sources path
    rw [if_neg hrows, hnil] at hlookup
    have hmem := ExtTreeMap.mem_toList_iff_getElem?_eq_some.mpr hlookup
    exact h _ hmem rfl
  · rintro h ⟨path, cs⟩ hmem hempty
    rw [ExtTreeMap.mem_toList_iff_getElem?_eq_some, lookup_mergedValues] at hmem
    by_cases hrows : fieldRows K path sources = []
    · rw [if_pos hrows] at hmem
      cases hmem
    · rw [if_neg hrows] at hmem
      refine h path hrows ?_
      rw [Option.some.inj hmem]
      simpa using hempty

/-- The merge after its candidates are collected. -/
theorem mergeSources_of_encodes (h : Encodes K sources) :
    mergeSources K sources =
      if (mergedValues K sources).toList.any (fun entry => entry.2.isEmpty) then
        .error (.decode "definition field has no maximal value")
      else
        match (sortByOrigin sources).head?, K.fromObject (mergedSpec K sources) with
        | none, _ => .error (.decode "cannot merge an empty definition source set")
        | some _, .error e => .error (.decode s!"decode merged definition spec: {e}")
        | some source, .ok spec => .ok (mergedObject K sources source spec) := by
  have hvalues : (BTreeMap.groupBy ((sortByOrigin sources).map fun source =>
      rowCandidates source (specFields K source)).flatten).map (fun _ cs => mergeField cs) =
      mergedValues K sources := rfl
  simp only [mergeSources, fieldCandidates_eq_ok h, bind, Except.bind, hvalues]
  by_cases hany : (mergedValues K sources).toList.any (fun entry => entry.2.isEmpty)
  · rw [if_pos hany, if_pos hany]
    rfl
  · cases (sortByOrigin sources).head? with
    | none => rfl
    | some source =>
      rw [mergedSpec]
      cases K.fromObject (chosenSpec (mergedValues K sources)) with
      | error e => rfl
      | ok spec => rfl

/-- **What a merge returns.** -/
theorem merged_of_mergeSources {object : ResourceObject V S T}
    (h : mergeSources K sources = .ok object) : Merged K sources object := by
  obtain ⟨candidates, hcandidates, -⟩ := bind_eq_ok h
  have hencodes := encodes_of_fieldCandidates hcandidates
  rw [mergeSources_of_encodes hencodes] at h
  by_cases hany : (mergedValues K sources).toList.any (fun entry => entry.2.isEmpty)
  · rw [if_pos hany] at h
    cases h
  · rw [if_neg hany] at h
    cases hfirst : (sortByOrigin sources).head? with
    | none => rw [hfirst] at h; cases h
    | some source =>
      cases hspec : K.fromObject (mergedSpec K sources) with
      | error e => rw [hfirst, hspec] at h; cases h
      | ok spec =>
        rw [hfirst, hspec] at h
        cases h
        refine ⟨hencodes, ?_, hspec, source, hfirst, rfl⟩
        exact any_isEmpty_mergedValues.mp (Bool.eq_false_iff.mpr hany)

/-- **A merge fails only for what its rows hold.**  With every spec encoding and
every field surviving, a nonempty set of rows merges unless the mixed spec does
not decode. -/
theorem mergeSources_total (hne : sources ≠ []) (hencodes : Encodes K sources)
    (hsurvivor : ∀ path, fieldRows K path sources ≠ [] → fieldValues K path sources ≠ []) :
    (∃ object, mergeSources K sources = .ok object) ∨
      ∃ e, K.fromObject (mergedSpec K sources) = .error e ∧
        mergeSources K sources = .error (.decode s!"decode merged definition spec: {e}") := by
  have hany := any_isEmpty_mergedValues.mpr hsurvivor
  rw [mergeSources_of_encodes hencodes, hany]
  cases hfirst : (sortByOrigin sources).head? with
  | none =>
    obtain ⟨source, hsource⟩ := List.exists_mem_of_ne_nil sources hne
    rw [List.head?_eq_none_iff] at hfirst
    have hmem := mem_sortByOrigin.mpr hsource
    rw [hfirst] at hmem
    exact absurd hmem List.not_mem_nil
  | some source =>
    cases hspec : K.fromObject (mergedSpec K sources) with
    | error e => exact .inr ⟨e, rfl, rfl⟩
    | ok spec => exact .inl ⟨_, rfl⟩

/-! ### Reading a merged object -/

section Read

variable {object : ResourceObject V S T}

theorem Merged.merge (h : Merged K sources object) :
    object.metadata.merge = some {
      fields := mergedFields (mergedValues K sources)
      seen := causalContext sources
      conflicts := mergeConflicts (mergedValues K sources) } := by
  obtain ⟨source, -, hobject⟩ := h.first
  rw [hobject]
  rfl

theorem Merged.deletionTimestamp (h : Merged K sources object) :
    object.metadata.deletionTimestamp = chosenDeletion (mergedValues K sources) := by
  obtain ⟨source, -, hobject⟩ := h.first
  rw [hobject]
  rfl

end Read

end Flotilla.Definition
