import Flotilla.Definition.ReadBack

/-!
# What a write to one field does to another field's conflict

Every write replaces the root's own row, and for a field it does not author the
new row holds the chosen candidate in place of the root's own.  When the root's
own value was one of the siblings and was not chosen, it is gone.

`EchoingWrite` are the writes that leave a conflicted field alone: an apply that
changes some other field and echoes this one, and a metadata update.
`KeepsSiblings` is the exact condition, on the candidates before the write,
under which the field shows the same siblings afterwards.
-/

namespace Flotilla.Definition

open Lib
open Memory

variable {V S T : Type}

variable {cs : List (FieldCandidate V)} {object : ResourceObject V S T}
  {others : List (NodeId × FieldCandidate V)} {path : FieldPath}
  {sources : List (DefinitionSource V S T)}

variable [JsonValue V]

/-- The values `mergeField` shows are those that survive. -/
theorem mem_values_mergeField {v : V} :
    v ∈ (mergeField cs).map (·.value) ↔ ∃ x ∈ causallyMaximal cs, x.value = v := by
  rw [List.mem_map]
  constructor
  · rintro ⟨x, hx, rfl⟩
    exact ⟨x, mem_maximal_of_mem_mergeField hx, rfl⟩
  · rintro ⟨x, hx, rfl⟩
    exact exists_mem_mergeField hx

theorem one_lt_length_iff_values :
    1 < (mergeField cs).length ↔
      ∃ v ∈ (mergeField cs).map (·.value), ∃ w ∈ (mergeField cs).map (·.value), v ≠ w := by
  simp only [mem_values_mergeField, one_lt_length_mergeField]
  constructor
  · rintro ⟨x, hx, y, hy, hne⟩
    exact ⟨x.value, ⟨x, hx, rfl⟩, y.value, ⟨y, hy, rfl⟩, hne⟩
  · rintro ⟨v, ⟨x, hx, rfl⟩, w, ⟨y, hy, rfl⟩, hne⟩
    exact ⟨x, hx, y, hy, hne⟩

/-! ### Keeping the siblings -/

/-- Beside `c`, the others still show the values in `values`, and no value more. -/
structure KeepsSiblings (others : List (NodeId × FieldCandidate V)) (values : List V)
    (c : FieldCandidate V) : Prop where
  /-- Every sibling but `c`'s own value stands in another root's row. -/
  held : ∀ v ∈ values, v ≠ c.value → ∃ row ∈ others, row.2.value = v ∧ Standing others c row
  /-- Whatever stands in another root's row was a sibling. -/
  shown : ∀ row ∈ others, Standing others c row → row.2.value ∈ values
  /-- `c` itself stands, or its value does. -/
  own : (∀ row ∈ others, row.2.supersedes c = false) ∨
    ∃ row ∈ others, row.2.value = c.value ∧ Standing others c row

theorem keepsSiblings_iff (root : NodeId) {c : FieldCandidate V} {values : List V}
    (hc : c.value ∈ values) :
    (∀ v, v ∈ (mergeField (orderedCandidates ((root, c) :: others))).map (·.value) ↔ v ∈ values) ↔
      KeepsSiblings others values c := by
  simp only [mem_values_mergeField, mem_survivors_cons]
  constructor
  · intro h
    refine ⟨fun v hv hne => ?_, fun row hrow hstands => ?_, ?_⟩
    · obtain ⟨x, ⟨rfl, -⟩ | ⟨row, hrow, rfl, hstands⟩, rfl⟩ := (h v).mpr hv
      · exact absurd rfl hne
      · exact ⟨row, hrow, rfl, hstands⟩
    · exact (h row.2.value).mp ⟨row.2, .inr ⟨row, hrow, rfl, hstands⟩, rfl⟩
    · obtain ⟨x, ⟨rfl, hothers⟩ | ⟨row, hrow, rfl, hstands⟩, hvalue⟩ := (h c.value).mpr hc
      · exact .inl hothers
      · exact .inr ⟨row, hrow, hvalue, hstands⟩
  · rintro ⟨hheld, hshown, hown⟩ v
    constructor
    · rintro ⟨x, ⟨rfl, -⟩ | ⟨row, hrow, rfl, hstands⟩, rfl⟩
      · exact hc
      · exact hshown row hrow hstands
    · intro hv
      by_cases hne : v = c.value
      · subst hne
        rcases hown with hothers | ⟨row, hrow, hvalue, hstands⟩
        · exact ⟨c, .inl ⟨rfl, hothers⟩, rfl⟩
        · exact ⟨row.2, .inr ⟨row, hrow, rfl, hstands⟩, hvalue⟩
      · obtain ⟨row, hrow, hvalue, hstands⟩ := hheld v hv hne
        exact ⟨row.2, .inr ⟨row, hrow, rfl, hstands⟩, hvalue⟩

/-! ### The siblings of a conflict -/

variable {K : DefinitionKind V S} {f : String} {requested : BTreeMap String V}

theorem lookup_conflictsOf (h : mergeSources K sources = .ok object)
    (hconflict : Conflicted K sources path) :
    (conflictsOf object)[path]? = some ((fieldValues K path sources).map sibling) := by
  rw [conflictsOf, (merged_of_mergeSources h).merge, Option.getD_some, lookup_mergeConflicts]
  exact if_pos hconflict

theorem lookup_conflictsOf_eq_some {siblings : List (MergeConflictSibling V)}
    (h : mergeSources K sources = .ok object)
    (hsiblings : (conflictsOf object)[path]? = some siblings) :
    Conflicted K sources path ∧
      siblings.map (·.value) = (fieldValues K path sources).map (·.value) := by
  have hconflict : Conflicted K sources path := by
    rw [← mem_conflictsOf h, Std.ExtTreeMap.mem_iff_isSome_getElem?, hsiblings]
    rfl
  rw [lookup_conflictsOf h hconflict] at hsiblings
  obtain rfl := Option.some.inj hsiblings
  exact ⟨hconflict, List.map_map⟩

theorem Carries.value {c : FieldCandidate V} {stamp : FieldMergeMetadata} {v : V}
    (h : Carries K sources requested stamp f v c) (hmerged : (mergedSpec K sources)[f]? = some v) :
    c.value = v := by
  rcases h with ⟨-, rfl⟩ | ⟨-, hhead⟩
  · rfl
  · rw [lookup_mergedSpec, hhead] at hmerged
    exact Option.some.inj hmerged

/-- An apply that echoes a conflicted field always writes. -/
theorem changed_of_conflicted {admitted : InputMeta} {v : V}
    (hconflict : Conflicted K sources (.spec f)) (hf : requested[f]? = some v) :
    Changed K sources requested admitted := by
  by_cases hvalues : HasValueChanges K sources requested
  · obtain ⟨g, w, hg, hne⟩ := hvalues
    exact .inr (Or.inr (Or.inl ⟨g, w, hg, .inl hne⟩))
  · exact .inr (Or.inr (Or.inl ⟨f, v, hf, .inr ⟨hvalues, hconflict⟩⟩))

/-! ### Metadata updates -/

variable [DecidableEq V]

/-- **A successful metadata update** rewrote the root's own row from the merged
view, stamps and all. -/
theorem updateMetadata_ok {r : Resolver V S T} {d d' : Definitions V S T} {input : InputMeta}
    {createdAt : Timestamp} (h : updateMetadata r d input createdAt = (d', .ok object)) :
    ∃ current own merge,
      mergeSources r.K (sourcesForName r d input.name) = .ok current ∧
      current.metadata.merge = some merge ∧
      RowWritten r.K input current.spec merge own ∧
      sourcesForName r d' input.name = ⟨own, r.localRoot, none⟩ :: replicaSources d input.name ∧
      mergeSources r.K (sourcesForName r d' input.name) = .ok object := by
  unfold updateMetadata at h
  cases hplan : (do refuseBuiltin r input.name; get r d input.name :
      Except ResourceError (ResourceObject V S T)) with
  | error e => simp only [hplan] at h; cases h
  | ok current =>
    obtain ⟨_, hrefuse, hget⟩ := bind_eq_ok hplan
    have hbuiltin := refuseBuiltin_ok hrefuse
    obtain ⟨hmerge, -⟩ := (get_eq_ok_iff hbuiltin).mp hget
    have hcurrent := (merged_of_mergeSources hmerge).merge
    simp only [hplan, hcurrent, Option.getD_some] at h
    obtain ⟨own, hrow, hsources, -, hmerged, -⟩ := thenGet_ok hbuiltin h
    exact ⟨current, own, _, hmerge, hcurrent, hrow, hsources, hmerged⟩

/-! ### Writes that leave a field alone -/

/-- A successful write that echoes field `f`, with the candidate of `f` the
root's own row holds after it. -/
inductive EchoingWrite (r : Resolver V S T) (d : Definitions V S T) (f : String) :
    String → FieldCandidate V → Definitions V S T → ResourceObject V S T → Prop
  /-- An apply that changes or drops some field and requests the merged value of `f`. -/
  | apply {writer : WriterIdentity} {input : InputMeta} {spec : S} {now createdAt : Timestamp}
      {requested : BTreeMap String V} {g : String} {v : V} {c : FieldCandidate V}
      {d' : Definitions V S T} {object : ResourceObject V S T}
      (applied : applyAs r d writer input spec now createdAt = (d', .ok object))
      (encodes : specObject r.K spec = .ok requested)
      (changes : requested[g]? ≠ (mergedSpec r.K (sourcesForName r d input.name))[g]?)
      (requests : requested[f]? = some v)
      (echoes : (mergedSpec r.K (sourcesForName r d input.name))[f]? = some v)
      (carries : Carries r.K (sourcesForName r d input.name) requested
        (nextStamp r.localRoot (causalContext (sourcesForName r d input.name)) writer now) f v c) :
      EchoingWrite r d f input.name c d' object
  | metadata {input : InputMeta} {createdAt : Timestamp} {c : FieldCandidate V}
      {d' : Definitions V S T} {object : ResourceObject V S T}
      (updated : updateMetadata r d input createdAt = (d', .ok object))
      (chosen : (fieldValues r.K (.spec f) (sourcesForName r d input.name)).head? = some c) :
      EchoingWrite r d f input.name c d' object

section Echo

variable {r : Resolver V S T} {d d' : Definitions V S T} {f name : String} {c : FieldCandidate V}
  {object current : ResourceObject V S T}

/-- After an echoing write the field is merged from the others' candidates and `c`. -/
theorem EchoingWrite.fieldValues (h : EchoingWrite r d f name c d' object)
    (hconflict : Conflicted r.K (sourcesForName r d name) (.spec f)) :
    (mergedSpec r.K (sourcesForName r d name))[f]? = some c.value ∧
      mergeSources r.K (sourcesForName r d' name) = .ok object ∧
      Definition.fieldValues r.K (.spec f) (sourcesForName r d' name) =
        mergeField (orderedCandidates
          ((r.localRoot, c) :: fieldRows r.K (.spec f) (replicaSources d name))) := by
  cases h with
  | apply applied encodes changes requests echoes carries =>
    obtain ⟨-, requested, hrequested, hcases⟩ := applyAs_ok applied
    obtain rfl := (specObject_inj hrequested).mp encodes
    rcases hcases with ⟨hunchanged, -, -⟩ |
      ⟨-, -, own, merge, hw, happlied, hsources, -, hmerge, -⟩
    · exact absurd (changed_of_conflicted hconflict requests) hunchanged
    · obtain ⟨c', hcarries, -, hvalues⟩ := fieldValues_written hw hrequested happlied
        r.localRoot (replicaSources d _) requests
      rw [hcarries.unique carries, ← hsources] at hvalues
      rw [carries.value echoes]
      exact ⟨echoes, hmerge, hvalues⟩
  | @metadata input _ _ _ _ updated chosen =>
    obtain ⟨current, own, merge, hcurrent, hmerge, hw, hsources, hmerged⟩ :=
      updateMetadata_ok updated
    have hm := merged_of_mergeSources hcurrent
    obtain rfl := Option.some.inj (hmerge.symm.trans hm.merge)
    have hecho : (mergedSpec r.K (sourcesForName r d input.name))[f]? = some c.value := by
      rw [lookup_mergedSpec, chosen, Option.map_some]
    refine ⟨hecho, hmerged, ?_⟩
    rw [hsources, Definition.fieldValues, fieldRows_cons, hw.candidateOf hm.specObject, hecho]
    simp only [lookup_mergedFields, chosen, Option.map_some, Option.getD_some]

/-- **A write to one field keeps another field's conflict** exactly when each
sibling other than the echoed value stands in another root's row beside the
echoed write, and nothing else stands there. -/
theorem echoingWrite_keeps_conflict_iff {before : List (MergeConflictSibling V)}
    (hcurrent : mergeSources r.K (sourcesForName r d name) = .ok current)
    (hconflict : (conflictsOf current)[FieldPath.spec f]? = some before)
    (hwrite : EchoingWrite r d f name c d' object) :
    (∃ after, (conflictsOf object)[FieldPath.spec f]? = some after ∧
        ∀ v, v ∈ after.map (·.value) ↔ v ∈ before.map (·.value)) ↔
      KeepsSiblings (fieldRows r.K (.spec f) (replicaSources d name)) (before.map (·.value)) c := by
  obtain ⟨hlen, hbefore⟩ := lookup_conflictsOf_eq_some hcurrent hconflict
  obtain ⟨hecho, hmerged, hvalues⟩ := hwrite.fieldValues hlen
  have hc : c.value ∈ before.map (·.value) := by
    rw [hbefore]
    rw [lookup_mergedSpec, Option.map_eq_some_iff] at hecho
    obtain ⟨x, hx, hvalue⟩ := hecho
    rw [← hvalue]
    exact List.mem_map_of_mem (List.mem_of_mem_head? hx)
  rw [← keepsSiblings_iff r.localRoot hc, ← hvalues]
  constructor
  · rintro ⟨after, hafter, hsame⟩
    rw [← (lookup_conflictsOf_eq_some hmerged hafter).2]
    exact hsame
  · intro hsame
    have hlen' : Conflicted r.K (sourcesForName r d' name) (.spec f) := by
      rw [Conflicted, Definition.fieldValues, one_lt_length_iff_values] at hlen ⊢
      obtain ⟨v, hv, w, hw, hne⟩ := hlen
      rw [← Definition.fieldValues, ← hbefore] at hv hw
      exact ⟨v, (hsame v).mpr hv, w, (hsame w).mpr hw, hne⟩
    refine ⟨_, lookup_conflictsOf hmerged hlen', fun v => ?_⟩
    rw [← hsame v, List.map_map]
    rfl

end Echo

theorem echoingWrite_keeps_conflict_iff_relabelled :
    ∃ current before c d' object,
      mergeSources fleetDesignation
        (sourcesForName (fleetResolver "b" ["harbour", "dock"]) twoProjects "fleet") = .ok current ∧
      (conflictsOf current)[FieldPath.spec "project"]? = some before ∧
      EchoingWrite (fleetResolver "b" ["harbour", "dock"]) twoProjects "project" "fleet" c d'
        object ∧
      ((∃ after, (conflictsOf object)[FieldPath.spec "project"]? = some after ∧
          ∀ v, v ∈ after.map (·.value) ↔ v ∈ before.map (·.value)) ↔
        KeepsSiblings (fieldRows fleetDesignation (.spec "project")
          (replicaSources twoProjects "fleet")) (before.map (·.value)) c) := by
  obtain ⟨current, hcurrent, hcontains⟩ := exists_ok
    (f := fun object => (conflictsOf object).contains (.spec "project")) (b := true)
    (x := mergeSources fleetDesignation
      (sourcesForName (fleetResolver "b" ["harbour", "dock"]) twoProjects "fleet"))
    (by decide +kernel)
  obtain ⟨before, hbefore⟩ := Option.isSome_iff_exists.mp
    (Std.ExtTreeMap.mem_iff_isSome_getElem?.mp (Std.ExtTreeMap.contains_iff_mem.mp hcontains))
  obtain ⟨d', object, hupdate, -⟩ := Outcome.exists_ok (f := fun _ => ()) (b := ())
    (x := updateMetadata (fleetResolver "b" ["harbour", "dock"]) twoProjects
      { fleetInput with finalizers := ["hold"] } 200) (by decide +kernel)
  obtain ⟨c, hc⟩ := Option.isSome_iff_exists.mp
    (show (fieldValues fleetDesignation (.spec "project")
      (sourcesForName (fleetResolver "b" ["harbour", "dock"]) twoProjects "fleet")).head?.isSome =
        true
      by decide +kernel)
  have hwrite := EchoingWrite.metadata hupdate hc
  exact ⟨current, before, c, d', object, hcurrent, hbefore, hwrite,
    echoingWrite_keeps_conflict_iff hcurrent hbefore hwrite⟩

/-- The root whose project was not chosen names its fleet, and the conflict on
the project is gone. -/
theorem applyAs_resolves_other_conflict :
    (mergeSources fleetDesignation
        (sourcesForName (fleetResolver "b" ["harbour", "dock"]) twoProjects "fleet")).toOption.map
      (fun current => (current.spec.project, (conflictsOf current).contains (.spec "project"))) =
        some ("harbour", true) ∧
    ∃ d' object,
      applyAs (fleetResolver "b" ["harbour", "dock"]) twoProjects fleetWriter fleetInput
        { fleet := some "blue", project := "harbour" } 200 200 = (d', .ok object) ∧
      (conflictsOf object).contains (.spec "project") = false :=
  ⟨by decide +kernel, Outcome.exists_ok (by decide +kernel)⟩

end Flotilla.Definition
