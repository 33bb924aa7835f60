import Flotilla.Definition.Apply

/-!
# The row a write leaves, whatever it returns

An apply or a delete either leaves every row as it was or rewrites the root's
own row of that name, and it may have rewritten the row and still return an
error, when the read after the write fails.  `Stamped` is what the rewritten row
carries: its vector is the context with the new dot, and each of its field
stamps is the new one or one that was chosen among the rows before.
-/

namespace Flotilla.Definition

open Lib
open Memory

variable {V S T : Type} [JsonValue V] {K : DefinitionKind V S}
  {sources : List (DefinitionSource V S T)} {stamp : FieldMergeMetadata}

/-- The metadata of a written row, on the rows before the write. -/
structure StampedMerge (K : DefinitionKind V S) (sources : List (DefinitionSource V S T))
    (stamp : FieldMergeMetadata) (spec : S) (merge : MergeMetadata V) : Prop where
  seen : merge.seen = stamp.seen.insert stamp.dot.authorRoot stamp.dot.authorCounter
  deleted : merge.fields[FieldPath.deleted]? = some stamp
  chosen : ∀ (path : FieldPath) (e : FieldMergeMetadata), merge.fields[path]? = some e →
    e = stamp ∨ ∃ c ∈ fieldValues K path sources, c.metadata = e
  held : ∀ (f : String) (fields : BTreeMap String V), specObject K spec = .ok fields →
    f ∈ fields → (merge.fields[FieldPath.spec f]?).isSome = true

variable {d : Definitions V S T} {input : InputMeta} {merge : MergeMetadata V} {name : String}
  {r : Resolver V S T}

theorem stampedMerge_of_applied {requested : BTreeMap String V} {spec : S}
    (hrequested : specObject K spec = .ok requested)
    (h : AppliedMerge K sources requested stamp merge) :
    StampedMerge K sources stamp spec merge where
  seen := h.seen
  deleted := h.deleted
  chosen path e he := by
    cases path with
    | deleted =>
      rw [h.deleted] at he
      exact .inl (Option.some.inj he).symm
    | spec f =>
      by_cases hauthored : ∃ v, requested[f]? = some v ∧ Authored K sources requested f v
      · obtain ⟨v, hf, ha⟩ := hauthored
        rw [h.authored f v hf ha] at he
        exact .inl (Option.some.inj he).symm
      · rw [h.kept f fun v hf ha => hauthored ⟨v, hf, ha⟩, Option.map_eq_some_iff] at he
        obtain ⟨c, hc, rfl⟩ := he
        exact .inr ⟨c, List.mem_of_mem_head? hc, rfl⟩
  held f fields hfields hmem := by
    rw [hrequested] at hfields
    cases hfields
    rw [Std.ExtTreeMap.mem_iff_isSome_getElem?, Option.isSome_iff_exists] at hmem
    obtain ⟨v, hf⟩ := hmem
    by_cases ha : Authored K sources requested f v
    · rw [h.authored f v hf ha]
      rfl
    · have hmerged : (mergedSpec K sources)[f]? = some v := by
        by_contra hne
        exact ha (Or.inl hne)
      rw [lookup_mergedSpec, Option.map_eq_some_iff] at hmerged
      obtain ⟨c, hc, -⟩ := hmerged
      rw [h.kept f fun w hw => by rw [hf] at hw; cases hw; exact ha, hc]
      rfl

theorem stampedMerge_of_restamped {current : ResourceObject V S T}
    (h : mergeSources K sources = .ok current) :
    StampedMerge K sources stamp current.spec
      (restamp (current.metadata.merge.getD emptyMerge) stamp) := by
  have hm := merged_of_mergeSources h
  have hfields : ∀ path, path ≠ .deleted →
      (restamp (current.metadata.merge.getD emptyMerge) stamp).fields[path]? =
        (fieldValues K path sources).head?.map (·.metadata) := by
    intro path hpath
    rw [← lookup_mergedFields, hm.merge]
    simp [restamp, Std.ExtTreeMap.getElem?_insert, hpath.symm]
  refine ⟨rfl, by simp [restamp], fun path e he => ?_, fun f fields hspec hmem => ?_⟩
  · by_cases hpath : path = .deleted
    · subst hpath
      have hstamp : (restamp (current.metadata.merge.getD emptyMerge) stamp).fields[
          FieldPath.deleted]? = some stamp := by simp [restamp]
      rw [hstamp] at he
      exact .inl (Option.some.inj he).symm
    · rw [hfields path hpath, Option.map_eq_some_iff] at he
      obtain ⟨c, hc, rfl⟩ := he
      exact .inr ⟨c, List.mem_of_mem_head? hc, rfl⟩
  · rw [hm.specObject] at hspec
    cases hspec
    rw [Std.ExtTreeMap.mem_iff_isSome_getElem?, lookup_mergedSpec, Option.isSome_map] at hmem
    rw [hfields _ (by simp), Option.isSome_map]
    exact hmem

/-- A row as a write leaves it. -/
structure StampedRow (K : DefinitionKind V S) (sources : List (DefinitionSource V S T))
    (stamp : FieldMergeMetadata) (name : String) (row : ResourceObject V S T) : Prop where
  merge : ∃ merge, row.metadata.merge = some merge ∧ StampedMerge K sources stamp row.spec merge
  encodes : ∃ fields, specObject K row.spec = .ok fields
  named : row.metadata.name = name

variable [DecidableEq V]

omit [JsonValue V] in
/-- Writing a row leaves the rows as they were, or leaves that row. -/
theorem writeLocal_rows (r : Resolver V S T) (createdAt : Timestamp) (spec : S)
    (merge : MergeMetadata V) (hname : input.name = name) (hnamed : OwnRowNamed d name) :
    let d' := (writeLocal r d createdAt name input spec merge).1
    d'.replicas = d.replicas ∧
      (d'.store.objects = d.store.objects ∨
        (∀ other, other ≠ name → d'.store.objects[other]? = d.store.objects[other]?) ∧
        ∃ row, d'.store.objects[name]? = some row ∧ row.metadata.name = name ∧
          RowWritten r.K input spec merge row.stripped) := by
  rcases hw : writeLocal r d createdAt name input spec merge with ⟨d', out⟩
  cases out with
  | ok object =>
    obtain ⟨hreplicas, hothers, row, hrow, hstored, hrowname⟩ := writeLocal_ok hname hw
    exact ⟨hreplicas, .inr ⟨hothers, row, hstored, hrowname hnamed, hrow⟩⟩
  | error | panic =>
    obtain ⟨hreplicas, hobjects⟩ := writeLocal_failed hw fun o ho => by cases ho
    exact ⟨hreplicas, .inl hobjects⟩

/-- The rows after a write of `name` under `stamp`: as they were, or with the
root's own row rewritten. -/
def RewritesRow (r : Resolver V S T) (d : Definitions V S T) (name : String)
    (stamp : FieldMergeMetadata) (d' : Definitions V S T) : Prop :=
  d'.replicas = d.replicas ∧
    (d'.store.objects = d.store.objects ∨
      (∀ other, other ≠ name → d'.store.objects[other]? = d.store.objects[other]?) ∧
      ∃ row, d'.store.objects[name]? = some row ∧
        StampedRow r.K (sourcesForName r d name) stamp name row)

omit [DecidableEq V] in
theorem rewritesRow_refl (r : Resolver V S T) (d : Definitions V S T) (name : String)
    (stamp : FieldMergeMetadata) : RewritesRow r d name stamp d :=
  ⟨rfl, .inl rfl⟩

theorem rewritesRow_writeLocal (createdAt : Timestamp) {spec : S} {stamp : FieldMergeMetadata}
    (hname : input.name = name) (hnamed : OwnRowNamed d name)
    (hmerge : StampedMerge r.K (sourcesForName r d name) stamp spec merge) :
    RewritesRow r d name stamp (writeLocal r d createdAt name input spec merge).1 := by
  obtain ⟨hreplicas, hobjects | ⟨hothers, row, hstored, hrowname, hrow⟩⟩ :=
    writeLocal_rows r createdAt spec merge hname hnamed
  · exact ⟨hreplicas, .inl hobjects⟩
  · obtain ⟨fields, hspec, hfields⟩ := hrow.encodes
    refine ⟨hreplicas, .inr ⟨hothers, row, hstored, ⟨⟨merge, hrow.merge, ?_⟩, ⟨fields, hfields⟩,
      hrowname⟩⟩⟩
    refine ⟨hmerge.seen, hmerge.deleted, hmerge.chosen, fun f fields' hfields' hmem => ?_⟩
    obtain rfl : fields = fields' := Except.ok.inj (hfields.symm.trans hfields')
    exact hmerge.held f fields hspec hmem

omit [DecidableEq V] in
theorem thenGet_fst (written : Definitions V S T × Outcome (ResourceObject V S T)) :
    (thenGet r name written).1 = written.1 := by
  obtain ⟨d, out⟩ := written
  cases out with
  | ok object => rfl
  | error e => rfl
  | panic => rfl

/-- **What an apply does to the rows**, whatever it returns. -/
theorem applyAs_rows (hnamed : OwnRowNamed d input.name) (writer : WriterIdentity) (spec : S)
    (now createdAt : Timestamp) :
    RewritesRow r d input.name
      (nextStamp r.localRoot (causalContext (sourcesForName r d input.name)) writer now)
      (applyAs r d writer input spec now createdAt).1 := by
  unfold applyAs
  cases hplan : planApply r d writer input spec now with
  | error e => exact rewritesRow_refl r d _ _
  | ok plan =>
    obtain ⟨requested, hrequested, ⟨-, current, -, rfl⟩ | ⟨-, -, merge, rfl, happlied⟩⟩ :=
      planApply_ok hplan
    · exact rewritesRow_refl r d _ _
    · rw [thenGet_fst]
      exact rewritesRow_writeLocal createdAt rfl hnamed
        (stampedMerge_of_applied hrequested happlied)

/-- **What a delete does to the rows**, whatever it returns. -/
theorem delete_rows (hnamed : OwnRowNamed d name)
    (hsources : ∀ source ∈ sourcesForName r d name, source.object.metadata.name = name)
    (now createdAt : Timestamp) :
    RewritesRow r d name
      (nextStamp r.localRoot (causalContext (sourcesForName r d name))
        (.operatorWithSource "definition-delete") now)
      (delete r d name now createdAt).1 := by
  unfold delete
  cases hplan : planDelete r d name with
  | error e => exact rewritesRow_refl r d _ _
  | ok current =>
    obtain ⟨-, -, hplan⟩ := bind_eq_ok hplan
    obtain ⟨-, -, hplan⟩ := bind_eq_ok hplan
    by_cases hempty : (sourcesForName r d name).isEmpty = true
    · rw [if_pos hempty] at hplan
      cases hplan
    · rw [if_neg hempty] at hplan
      have hname : ({ current.metadata.toInputMeta with
          deletionTimestamp := some now } : InputMeta).name = name := by
        obtain ⟨first, hfirst, hobject⟩ := (merged_of_mergeSources hplan).first
        rw [hobject]
        exact hsources first (mem_sortByOrigin.mp (List.mem_of_mem_head? hfirst))
      exact rewritesRow_writeLocal createdAt hname hnamed (stampedMerge_of_restamped hplan)

end Flotilla.Definition
