import Flotilla.Definition.Write

/-!
# What an apply decides and writes

`decideApply` works on the merged object; here its verdict is said on the rows.
`Authored` are the fields the apply stamps anew: those whose value differs from
the merged one, and, when no value differs, those in conflict.  `Changed` says
whether it writes at all.

`applyAs_ok` is the one description of a successful apply the later files use:
either nothing was to be done and the merged view is returned, or the root's own
row now carries the request, stamped as `appliedMerge` says, and the merge of
that row with the untouched replicas is returned.
-/

namespace Flotilla.Definition

open Lib Std
open Memory

variable {V S T : Type} [JsonValue V] {K : DefinitionKind V S}
  {sources : List (DefinitionSource V S T)}

/-! ### The merged spec as a mixture of the rows -/

variable {c : FieldCandidate V} {createdAt now : Timestamp} {d d' : Definitions V S T}
  {input : InputMeta} {name : String} {object : ResourceObject V S T} {path : FieldPath}
  {r : Resolver V S T} {spec : S} {writer : WriterIdentity}

omit [JsonValue V] in
theorem mem_orderedCandidates {rows : List (NodeId × FieldCandidate V)} :
    c ∈ orderedCandidates rows ↔ ∃ origin, (origin, c) ∈ rows := by
  simp only [orderedCandidates, List.mem_map, List.mem_insertionSort, Prod.exists, exists_eq_right]

theorem mem_fieldRows {origin : NodeId} :
    (origin, c) ∈ fieldRows K path sources ↔
      ∃ source ∈ sources, source.origin = origin ∧ candidateOf K path source = some c := by
  simp only [fieldRows, List.mem_filterMap, Option.map_eq_some_iff, Prod.mk.injEq]
  constructor
  · rintro ⟨source, hsource, c', hc', horigin, rfl⟩
    exact ⟨source, hsource, horigin, hc'⟩
  · rintro ⟨source, hsource, horigin, hc⟩
    exact ⟨source, hsource, c, hc, horigin, rfl⟩

theorem mem_of_mem_fieldValues (h : c ∈ fieldValues K path sources) :
    ∃ origin, (origin, c) ∈ fieldRows K path sources :=
  mem_orderedCandidates.mp (mem_causallyMaximal.mp (mem_maximal_of_mem_mergeField h)).1

theorem candidateOf_spec_eq_some {field : String} {source : DefinitionSource V S T} :
    candidateOf K (.spec field) source = some c ↔
      (specFields K source)[field]? = some c.value ∧
        c.metadata = fieldMetadata source (.spec field) := by
  simp only [candidateOf, Option.map_eq_some_iff]
  constructor
  · rintro ⟨value, hvalue, rfl⟩
    exact ⟨hvalue, rfl⟩
  · rintro ⟨hvalue, hmeta⟩
    exact ⟨c.value, hvalue, by rw [← hmeta]⟩

theorem fieldValues_eq_nil_of_rows (h : fieldRows K path sources = []) :
    fieldValues K path sources = [] := by
  rw [fieldValues, h]
  rfl

/-- A field is merged exactly when some row holds it. -/
theorem Merged.mem_mergedSpec (h : Merged K sources object) (field : String) :
    field ∈ mergedSpec K sources ↔ ∃ source ∈ sources, field ∈ specFields K source := by
  rw [ExtTreeMap.mem_iff_isSome_getElem?, lookup_mergedSpec]
  constructor
  · intro hsome
    cases hvalues : fieldValues K (.spec field) sources with
    | nil => rw [hvalues] at hsome; cases hsome
    | cons c rest =>
      have hc : c ∈ fieldValues K (.spec field) sources := by simp [hvalues]
      obtain ⟨origin, hrow⟩ := mem_of_mem_fieldValues hc
      obtain ⟨source, hsource, -, hcand⟩ := mem_fieldRows.mp hrow
      refine ⟨source, hsource, ?_⟩
      rw [ExtTreeMap.mem_iff_isSome_getElem?, (candidateOf_spec_eq_some.mp hcand).1]
      rfl
  · rintro ⟨source, hsource, hfield⟩
    rw [ExtTreeMap.mem_iff_isSome_getElem?, Option.isSome_iff_exists] at hfield
    obtain ⟨value, hvalue⟩ := hfield
    have hrow : (source.origin, ⟨value, fieldMetadata source (.spec field)⟩) ∈
        fieldRows K (.spec field) sources :=
      mem_fieldRows.mpr ⟨source, hsource, rfl, candidateOf_spec_eq_some.mpr ⟨hvalue, rfl⟩⟩
    have hne := h.survivor (.spec field) (List.ne_nil_of_mem hrow)
    cases hvalues : fieldValues K (.spec field) sources with
    | nil => exact absurd hvalues hne
    | cons c rest => rfl

theorem Merged.mixture (h : Merged K sources object) :
    Mixture (sources.map (specFields K)) (mergedSpec K sources) where
  nonempty := by
    obtain ⟨source, hfirst, -⟩ := h.first
    have hmem := mem_sortByOrigin.mp (List.mem_of_mem_head? hfirst)
    exact List.ne_nil_of_mem (List.mem_map_of_mem hmem)
  mem_iff field := by
    rw [h.mem_mergedSpec field]
    simp only [List.mem_map, exists_exists_and_eq_and]
  value field value hvalue := by
    rw [lookup_mergedSpec, Option.map_eq_some_iff] at hvalue
    obtain ⟨c, hc, rfl⟩ := hvalue
    obtain ⟨origin, hrow⟩ := mem_of_mem_fieldValues (List.mem_of_mem_head? hc)
    obtain ⟨source, hsource, -, hcand⟩ := mem_fieldRows.mp hrow
    exact ⟨specFields K source, List.mem_map_of_mem hsource, (candidateOf_spec_eq_some.mp hcand).1⟩

/-- The merged object's spec encodes to the merged fields. -/
theorem Merged.specObject (h : Merged K sources object) :
    specObject K object.spec = .ok (mergedSpec K sources) := by
  apply specObject_of_toObject
  refine K.encode_mixture (sources.map (specFields K)) _ _ ?_ h.mixture h.decodes
  intro part hpart
  obtain ⟨source, hsource, rfl⟩ := List.mem_map.mp hpart
  exact ⟨source.object.spec, toObject_of_specObject (h.encodes source hsource)⟩

/-! ### The decision, on the rows -/

section Decision

variable (K sources)

/-- Some requested value differs from the merged one. -/
def HasValueChanges (requested : BTreeMap String V) : Prop :=
  ∃ (f : String) (v : V), requested[f]? = some v ∧ (mergedSpec K sources)[f]? ≠ some v

def Conflicted (path : FieldPath) : Prop :=
  1 < (fieldValues K path sources).length

/-- The apply stamps the field anew. -/
def Authored (requested : BTreeMap String V) (f : String) (v : V) : Prop :=
  (mergedSpec K sources)[f]? ≠ some v ∨
    (¬ HasValueChanges K sources requested ∧ Conflicted K sources (.spec f))

/-- The apply writes a row. -/
def Changed (requested : BTreeMap String V) (admitted : InputMeta) : Prop :=
  sources = [] ∨
    (∃ current, mergeSources K sources = .ok current ∧ current.metadata.toInputMeta ≠ admitted) ∨
    (∃ (f : String) (v : V), requested[f]? = some v ∧ Authored K sources requested f v) ∨
    Conflicted K sources .deleted ∨
    (chosenDeletion (mergedValues K sources)).isSome = true

/-- The merged object an apply starts from, if there is any row. -/
def CurrentView (current : Option (ResourceObject V S T)) : Prop :=
  (sources = [] ∧ current = none) ∨
    ∃ object, current = some object ∧ mergeSources K sources = .ok object

end Decision

section Decide

variable {current : Option (ResourceObject V S T)} {requested : BTreeMap String V}
  {admitted : InputMeta}

theorem fieldValues_nil :
    fieldValues K path ([] : List (DefinitionSource V S T)) = [] :=
  fieldValues_eq_nil_of_rows rfl

omit [JsonValue V] in
theorem any_toList_iff (q : String × V → Bool) :
    requested.toList.any q = true ↔ ∃ f v, requested[f]? = some v ∧ q (f, v) = true := by
  simp only [List.any_eq_true, Prod.exists, ExtTreeMap.mem_toList_iff_getElem?_eq_some]

variable (h : CurrentView K sources current)

include h

/-- The stamps an apply starts from are those of the chosen candidates. -/
theorem CurrentView.fields (path : FieldPath) :
    ((current.bind fun object => object.metadata.merge).getD emptyMerge).fields[path]? =
      (fieldValues K path sources).head?.map (·.metadata) := by
  rcases h with ⟨rfl, rfl⟩ | ⟨object, rfl, hmerge⟩
  · exact ExtTreeMap.getElem?_empty
  · rw [← lookup_mergedFields]
    simp only [Option.bind_some, (merged_of_mergeSources hmerge).merge, Option.getD_some]

theorem CurrentView.conflicts (path : FieldPath) :
    ((current.bind fun object => object.metadata.merge).getD emptyMerge).conflicts.contains path
      = true ↔ Conflicted K sources path := by
  rcases h with ⟨rfl, rfl⟩ | ⟨object, rfl, hmerge⟩
  · rw [Conflicted, fieldValues_nil]
    simp [emptyMerge]
  · simp only [Option.bind_some, (merged_of_mergeSources hmerge).merge, Option.getD_some]
    rw [ExtTreeMap.contains_iff_mem, mem_mergeConflicts]
    rfl

theorem CurrentView.isNone : current.isNone = true ↔ sources = [] := by
  rcases h with ⟨rfl, rfl⟩ | ⟨object, rfl, hmerge⟩
  · simp
  · simp only [Option.isNone_some, Bool.false_eq_true, false_iff]
    rintro rfl
    cases hmerge

theorem CurrentView.deleted :
    (current.any fun object => object.metadata.deletionTimestamp.isSome) = true ↔
      (chosenDeletion (mergedValues K sources)).isSome = true := by
  rcases h with ⟨rfl, rfl⟩ | ⟨object, rfl, hmerge⟩
  · rw [isSome_chosenDeletion, fieldValues_nil]
    simp
  · simp only [Option.any_some, (merged_of_mergeSources hmerge).deletionTimestamp]

theorem CurrentView.metadataChanged :
    (current.any fun object => object.metadata.toInputMeta ≠ admitted) = true ↔
      ∃ object, mergeSources K sources = .ok object ∧ object.metadata.toInputMeta ≠ admitted := by
  rcases h with ⟨rfl, rfl⟩ | ⟨object, rfl, hmerge⟩
  · simp only [Option.any_none, Bool.false_eq_true, false_iff]
    rintro ⟨object, hmerge, -⟩
    cases hmerge
  · rw [hmerge]
    simp

variable [DecidableEq V]

/-- The value an entry replaces, and whether it differs. -/
theorem CurrentView.valueChanged (f : String) (v : V) :
    decide (((current.map fun _ => mergedSpec K sources).bind fun fields => fields[f]?) ≠ some v)
      = true ↔ (mergedSpec K sources)[f]? ≠ some v := by
  rcases h with ⟨rfl, rfl⟩ | ⟨object, rfl, -⟩
  · rw [lookup_mergedSpec, fieldValues_nil]
    simp
  · simp

/-- The fields stamped anew are the authored ones. -/
theorem CurrentView.authored (f : String) (v : V) :
    let merge := (current.bind fun object => object.metadata.merge).getD emptyMerge
    let valueChanged := fun entry =>
      decide (((current.map fun _ => mergedSpec K sources).bind fun fields => fields[entry.1]?)
        ≠ some entry.2)
    (valueChanged (f, v)
      || (current.isSome && !requested.toList.any valueChanged)
        && merge.conflicts.contains (.spec f)
      || current.isNone) = true ↔ Authored K sources requested f v := by
  intro merge valueChanged
  have hchanged : requested.toList.any valueChanged = true ↔
      HasValueChanges K sources requested := by
    rw [any_toList_iff]
    simp only [valueChanged, h.valueChanged, HasValueChanges]
  have hnone : current.isNone = true → (mergedSpec K sources)[f]? ≠ some v := by
    intro hn
    rw [h.isNone.mp hn, lookup_mergedSpec, fieldValues_nil]
    simp
  have hsome : Conflicted K sources (.spec f) → current.isSome = true := by
    intro hc
    cases hcur : current with
    | some object => rfl
    | none =>
      rw [Conflicted, h.isNone.mp (by rw [hcur]; rfl), fieldValues_nil] at hc
      simp at hc
  simp only [Bool.or_eq_true, Bool.and_eq_true, Bool.not_eq_true', ← Bool.not_eq_true, hchanged,
    merge, h.conflicts, valueChanged, h.valueChanged, Authored]
  tauto

theorem decideApply_changed (requested : BTreeMap String V) (admitted : InputMeta)
    (stamp : FieldMergeMetadata) :
    (decideApply current (current.map fun _ => mergedSpec K sources) requested admitted
      stamp).changed = true ↔ Changed K sources requested admitted := by
  simp only [decideApply]
  rw [Bool.or_eq_true, Bool.or_eq_true, Bool.or_eq_true, Bool.or_eq_true, any_toList_iff]
  simp only [Option.isNone_map, h.isNone, h.authored, h.metadataChanged, h.conflicts, h.deleted,
    Changed, or_assoc]

theorem decideApply_fields (requested : BTreeMap String V) (admitted : InputMeta)
    (stamp : FieldMergeMetadata) (path : FieldPath) :
    (∀ f v, path = .spec f → requested[f]? = some v → Authored K sources requested f v →
      (decideApply current (current.map fun _ => mergedSpec K sources) requested admitted
        stamp).fields[path]? = some stamp) ∧
    ((∀ f v, path = .spec f → requested[f]? = some v → ¬ Authored K sources requested f v) →
      (decideApply current (current.map fun _ => mergedSpec K sources) requested admitted
        stamp).fields[path]? = (fieldValues K path sources).head?.map (·.metadata)) := by
  simp only [decideApply]
  rw [lookup_foldl_insert requested.toList _ (fun entry => FieldPath.spec entry.1)]
  constructor
  · rintro f v rfl hf ha
    rw [if_pos]
    exact ⟨(f, v), ExtTreeMap.mem_toList_iff_getElem?_eq_some.mpr hf,
      (h.authored f v).mpr ha, rfl⟩
  · intro hnone
    rw [if_neg, h.fields]
    rintro ⟨⟨f, v⟩, hentry, ha, hpath⟩
    rw [ExtTreeMap.mem_toList_iff_getElem?_eq_some] at hentry
    exact hnone f v hpath.symm hentry ((h.authored f v).mp ha)

end Decide

/-! ### A successful apply -/

/-- The stamps of the row an apply writes: authored fields and the deletion
marker carry the new stamp, every other field the one chosen for it before. -/
structure AppliedMerge (K : DefinitionKind V S) (sources : List (DefinitionSource V S T))
    (requested : BTreeMap String V) (stamp : FieldMergeMetadata) (merge : MergeMetadata V) :
    Prop where
  deleted : merge.fields[FieldPath.deleted]? = some stamp
  authored : ∀ (f : String) (v : V), requested[f]? = some v → Authored K sources requested f v →
    merge.fields[FieldPath.spec f]? = some stamp
  kept : ∀ f : String, (∀ v, requested[f]? = some v → ¬ Authored K sources requested f v) →
    merge.fields[FieldPath.spec f]? = (fieldValues K (.spec f) sources).head?.map (·.metadata)
  seen : merge.seen = stamp.seen.insert stamp.dot.authorRoot stamp.dot.authorCounter

/-- A read shows the merge of the rows when there is one and it is visible. -/
theorem get_eq_ok_iff (hbuiltin : r.builtin name = none) :
    get r d name = .ok object ↔
      mergeSources r.K (sourcesForName r d name) = .ok object ∧
        definitionIsVisible object = true := by
  unfold get
  simp only [hbuiltin]
  by_cases hempty : sourcesForName r d name = []
  · rw [hempty]
    constructor
    · intro h
      cases h
    · rintro ⟨h, -⟩
      cases h
  · rw [if_neg (by simpa using hempty)]
    constructor
    · intro h
      obtain ⟨merged, hmerged, h⟩ := bind_eq_ok h
      by_cases hvisible : definitionIsVisible merged = true
      · simp only [hvisible, if_true] at h
        cases h
        exact ⟨hmerged, hvisible⟩
      · simp only [hvisible, Bool.false_eq_true, if_false] at h
        cases h
    · rintro ⟨hmerged, hvisible⟩
      rw [hmerged]
      show (if definitionIsVisible object = true then _ else _) = _
      rw [if_pos hvisible]
      rfl

omit [JsonValue V] in
theorem refuseBuiltin_ok (h : refuseBuiltin r name = .ok ()) : r.builtin name = none := by
  unfold refuseBuiltin at h
  cases hb : r.builtin name with
  | none => rfl
  | some object => rw [hb] at h; cases h

omit [JsonValue V] in
/-- The rows after the root's own row was written. -/
theorem sourcesForName_written {row : ResourceObject V S T} (hreplicas : d'.replicas = d.replicas)
    (hrow : d'.store.objects[name]? = some row) :
    sourcesForName r d' name = ⟨row.stripped, r.localRoot, none⟩ :: replicaSources d name := by
  rw [sourcesForName, localSource, hrow, replicaSources, replicaSources, hreplicas]
  rfl

variable [DecidableEq V]

theorem planApply_ok {plan : ApplyPlan V S T} (h : planApply r d writer input spec now = .ok plan) :
    ∃ requested, specObject r.K spec = .ok requested ∧
      ((¬ Changed r.K (sourcesForName r d input.name) requested
            { input with deletionTimestamp := none } ∧
          ∃ object, mergeSources r.K (sourcesForName r d input.name) = .ok object ∧
            plan = .unchanged object) ∨
        (Changed r.K (sourcesForName r d input.name) requested
            { input with deletionTimestamp := none } ∧
          (∃ current, CurrentView r.K (sourcesForName r d input.name) current) ∧
          ∃ merge, plan = .write { input with deletionTimestamp := none } merge ∧
            AppliedMerge r.K (sourcesForName r d input.name) requested
              (nextStamp r.localRoot (causalContext (sourcesForName r d input.name)) writer now)
              merge)) := by
  obtain ⟨-, -, h⟩ := bind_eq_ok h
  obtain ⟨-, -, h⟩ := bind_eq_ok h
  obtain ⟨-, -, h⟩ := bind_eq_ok h
  obtain ⟨current, hcurrent, h⟩ := bind_eq_ok h
  obtain ⟨requested, hrequested, h⟩ := bind_eq_ok h
  obtain ⟨currentSpec, hspec, h⟩ := bind_eq_ok h
  set sources := sourcesForName r d input.name with hsources
  refine ⟨requested, hrequested, ?_⟩
  have hview : CurrentView r.K sources current ∧
      currentSpec = current.map fun _ => mergedSpec r.K sources := by
    unfold mergedCurrent at hcurrent
    by_cases hempty : sources.isEmpty = true
    · rw [if_pos hempty] at hcurrent
      cases hcurrent
      cases hspec
      exact ⟨.inl ⟨by simpa using hempty, rfl⟩, rfl⟩
    · rw [if_neg hempty] at hcurrent
      cases hmerge : mergeSources r.K sources with
      | error e => rw [hmerge] at hcurrent; cases hcurrent
      | ok object =>
        rw [hmerge] at hcurrent
        cases hcurrent
        rw [currentFields, (merged_of_mergeSources hmerge).specObject] at hspec
        cases hspec
        exact ⟨.inr ⟨object, rfl, hmerge⟩, rfl⟩
  obtain ⟨hview, rfl⟩ := hview
  have hchanged := decideApply_changed hview requested { input with deletionTimestamp := none }
    (nextStamp r.localRoot (causalContext sources) writer now)
  have hfields := decideApply_fields hview requested { input with deletionTimestamp := none }
    (nextStamp r.localRoot (causalContext sources) writer now)
  simp only [concludeApply] at h
  by_cases hc : Changed r.K sources requested { input with deletionTimestamp := none }
  · rw [if_pos (hchanged.mpr hc)] at h
    cases h
    refine .inr ⟨hc, ⟨current, hview⟩, _, rfl, ?_⟩
    refine ⟨by simp [restamp], ?_, ?_, rfl⟩
    · intro f v hf ha
      have hstamp := (hfields (.spec f)).1 f v rfl hf ha
      simpa [restamp, ExtTreeMap.getElem?_insert] using hstamp
    · intro f hf
      have hkept := (hfields (.spec f)).2 (fun g v hg hv => by cases hg; exact hf v hv)
      simpa [restamp, ExtTreeMap.getElem?_insert] using hkept
  · rw [if_neg fun hd => hc (hchanged.mp hd)] at h
    rcases hview with ⟨hnil, -⟩ | ⟨object, rfl, hmerge⟩
    · exact absurd (Or.inl hnil) hc
    · cases h
      exact .inl ⟨hc, object, hmerge, rfl⟩

/-- A row written and read back is the merge of that row with the untouched replicas. -/
theorem thenGet_ok {merge : MergeMetadata V} (hbuiltin : r.builtin input.name = none)
    (h : thenGet r input.name (writeLocal r d createdAt input.name input spec merge) =
      (d', .ok object)) :
    ∃ own, RowWritten r.K input spec merge own ∧
      sourcesForName r d' input.name = ⟨own, r.localRoot, none⟩ :: replicaSources d input.name ∧
      d'.replicas = d.replicas ∧
      mergeSources r.K (sourcesForName r d' input.name) = .ok object ∧
      definitionIsVisible object = true ∧
      (OwnRowNamed d input.name → own.metadata.name = input.name) := by
  rcases hwrite : writeLocal r d createdAt input.name input spec merge with ⟨d₁, out⟩
  rw [hwrite] at h
  cases out with
  | error e => cases h
  | panic => cases h
  | ok written =>
    obtain ⟨rfl, hout⟩ := Prod.mk.inj h
    obtain ⟨hreplicas, -, row, hrow, hstored, hnamed⟩ := writeLocal_ok rfl hwrite
    have hgot : get r d₁ input.name = .ok object := by
      cases hg : get r d₁ input.name with
      | error e => rw [hg] at hout; cases hout
      | ok o => rw [hg] at hout; cases hout; rfl
    obtain ⟨hmerged, hvisible⟩ := (get_eq_ok_iff hbuiltin).mp hgot
    exact ⟨row.stripped, hrow, sourcesForName_written hreplicas hstored, hreplicas, hmerged,
      hvisible, hnamed⟩

/-- **A successful apply** returned the merged view as it was, or the merge of
the row it wrote with the untouched replicas. -/
theorem applyAs_ok (h : applyAs r d writer input spec now createdAt = (d', .ok object)) :
    r.builtin input.name = none ∧ ∃ requested, specObject r.K spec = .ok requested ∧
      ((¬ Changed r.K (sourcesForName r d input.name) requested
            { input with deletionTimestamp := none } ∧
          d' = d ∧ mergeSources r.K (sourcesForName r d input.name) = .ok object) ∨
        (Changed r.K (sourcesForName r d input.name) requested
            { input with deletionTimestamp := none } ∧
          (∃ current, CurrentView r.K (sourcesForName r d input.name) current) ∧
          ∃ own merge,
            RowWritten r.K { input with deletionTimestamp := none } spec merge own ∧
            AppliedMerge r.K (sourcesForName r d input.name) requested
              (nextStamp r.localRoot (causalContext (sourcesForName r d input.name)) writer now)
              merge ∧
            sourcesForName r d' input.name =
              ⟨own, r.localRoot, none⟩ :: replicaSources d input.name ∧
            d'.replicas = d.replicas ∧
            mergeSources r.K (sourcesForName r d' input.name) = .ok object ∧
            definitionIsVisible object = true ∧
            (OwnRowNamed d input.name → own.metadata.name = input.name))) := by
  unfold applyAs at h
  cases hplan : planApply r d writer input spec now with
  | error e => rw [hplan] at h; cases h
  | ok plan =>
    have hbuiltin : r.builtin input.name = none := by
      obtain ⟨_, hrefuse, -⟩ := bind_eq_ok hplan
      exact refuseBuiltin_ok hrefuse
    obtain ⟨requested, hrequested, hcases⟩ := planApply_ok hplan
    refine ⟨hbuiltin, requested, hrequested, ?_⟩
    rw [hplan] at h
    rcases hcases with ⟨hunchanged, current, hcurrent, rfl⟩ |
      ⟨hchanged, hview, merge, rfl, happlied⟩
    · obtain ⟨rfl, hout⟩ := Prod.mk.inj h
      cases hout
      exact .inl ⟨hunchanged, rfl, hcurrent⟩
    · have hadmitted :
          r.builtin ({ input with deletionTimestamp := none } : InputMeta).name = none := hbuiltin
      obtain ⟨own, hrow, hrest⟩ := thenGet_ok hadmitted h
      exact .inr ⟨hchanged, hview, own, merge, hrow, happlied, hrest⟩

/-- What a successful apply returned is what is read afterwards. -/
theorem get_of_applyAs (h : applyAs r d writer input spec now createdAt = (d', .ok object)) :
    get r d' input.name = .ok object := by
  obtain ⟨hbuiltin, requested, -, ⟨hunchanged, rfl, hmerge⟩ | ⟨-, -, own, merge, -, -, -, -, hmerge,
    hvisible, -⟩⟩ := applyAs_ok h
  · refine (get_eq_ok_iff hbuiltin).mpr ⟨hmerge, ?_⟩
    have hlive : object.metadata.deletionTimestamp = none := by
      rw [(merged_of_mergeSources hmerge).deletionTimestamp, ← Option.not_isSome_iff_eq_none]
      exact fun hsome => hunchanged (Or.inr (Or.inr (Or.inr (Or.inr hsome))))
    simp [definitionIsVisible, hlive]
  · exact (get_eq_ok_iff hbuiltin).mpr ⟨hmerge, hvisible⟩

end Flotilla.Definition
