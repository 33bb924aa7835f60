import Flotilla.Definition.Apply
import Flotilla.Definition.Kinds

/-!
# Reading back what was applied

After an apply the root's own row carries the request, and the read merges it
with what the other roots hold.  Field by field the own row holds the new value
under the new stamp, the echoed value under the stamp it was chosen with, or
nothing; `Carries` names which.  The request reads back exactly when each of
these wins against the other roots' candidates, and `AppliesCleanly` says when
that is, on the rows as they were before the apply:

* no other root holds a field the request leaves out,
* what another root holds of a changed field is covered by the context the apply
  saw, or loses to another root, or is the same value,
* the candidate that speaks for an echoed value, once the chosen one stands in the
  root's own row, ranks before those of the other values.

When the apply found nothing to write, the request reads back exactly when the
merged view has no field beyond it.
-/

namespace Flotilla.Definition

open Lib
open Memory

variable {V S T : Type} [JsonValue V] {K : DefinitionKind V S}

/-! ### The candidates of the written row -/

section Written

variable {input : InputMeta} {spec : S} {merge : MergeMetadata V} {own : ResourceObject V S T}
  {requested : BTreeMap String V} {root : NodeId} {sources : List (DefinitionSource V S T)}
  {stamp : FieldMergeMetadata} {f : String}

/-- What the root's own row holds of a requested field after the apply. -/
def Carries (K : DefinitionKind V S) (sources : List (DefinitionSource V S T))
    (requested : BTreeMap String V) (stamp : FieldMergeMetadata) (f : String) (v : V)
    (c : FieldCandidate V) : Prop :=
  (Authored K sources requested f v ∧ c = ⟨v, stamp⟩) ∨
    (¬ Authored K sources requested f v ∧ (fieldValues K (.spec f) sources).head? = some c)

theorem Carries.unique {v : V} {c c' : FieldCandidate V}
    (h : Carries K sources requested stamp f v c) (h' : Carries K sources requested stamp f v c') :
    c = c' := by
  rcases h with ⟨ha, rfl⟩ | ⟨hna, hc⟩
  · rcases h' with ⟨-, rfl⟩ | ⟨hna, -⟩
    · rfl
    · exact absurd ha hna
  · rcases h' with ⟨ha, -⟩ | ⟨-, hc'⟩
    · exact absurd ha hna
    · rw [hc] at hc'
      exact Option.some.inj hc'

theorem fieldRows_cons (path : FieldPath)
    (source : DefinitionSource V S T) (rest : List (DefinitionSource V S T)) :
    fieldRows K path (source :: rest) =
      match candidateOf K path source with
      | some c => (source.origin, c) :: fieldRows K path rest
      | none => fieldRows K path rest := by
  rw [fieldRows, List.filterMap_cons]
  cases candidateOf K path source <;> rfl

variable (h : RowWritten K input spec merge own) (hrequested : specObject K spec = .ok requested)

include h hrequested

omit [JsonValue V] in
theorem RowWritten.specFields : specFields K ⟨own, root, none⟩ = requested := by
  obtain ⟨fields, hfields, hown⟩ := h.encodes
  rw [hrequested] at hfields
  cases hfields
  rw [Definition.specFields, hown]

theorem RowWritten.candidateOf (f : String) :
    candidateOf K (.spec f) ⟨own, root, none⟩ =
      requested[f]?.map fun v =>
        ⟨v, merge.fields[FieldPath.spec f]?.getD (legacyField ⟨own, root, none⟩)⟩ := by
  rw [Definition.candidateOf, h.specFields hrequested]
  simp only [fieldMetadata, h.merge, Option.bind_some]

theorem own_carries (root : NodeId) (happlied : AppliedMerge K sources requested stamp merge)
    {v : V} (hf : requested[f]? = some v) :
    ∃ c, Carries K sources requested stamp f v c ∧ c.value = v ∧
      candidateOf K (.spec f) ⟨own, root, none⟩ = some c := by
  rw [h.candidateOf hrequested, hf, Option.map_some]
  by_cases ha : Authored K sources requested f v
  · refine ⟨⟨v, stamp⟩, .inl ⟨ha, rfl⟩, rfl, ?_⟩
    rw [happlied.authored f v hf ha, Option.getD_some]
  · have hmerged : (mergedSpec K sources)[f]? = some v := by
      by_contra hne
      exact ha (Or.inl hne)
    rw [lookup_mergedSpec, Option.map_eq_some_iff] at hmerged
    obtain ⟨chosen, hchosen, rfl⟩ := hmerged
    refine ⟨chosen, .inr ⟨ha, hchosen⟩, rfl, ?_⟩
    rw [happlied.kept f fun w hw => by rw [hf] at hw; cases hw; exact ha, hchosen]
    rfl

end Written

/-! ### The survivors beside one candidate -/

/-- A row of the others that neither `c` nor another of them supersedes. -/
def Standing (others : List (NodeId × FieldCandidate V)) (c : FieldCandidate V)
    (row : NodeId × FieldCandidate V) : Prop :=
  c.supersedes row.2 = false ∧ ∀ row' ∈ others, row'.2.supersedes row.2 = false

omit [JsonValue V] in
theorem not_supersedes_self (c : FieldCandidate V) : c.supersedes c = false := by
  simp [FieldCandidate.supersedes]

omit [JsonValue V] in
theorem mem_survivors_cons {root : NodeId} {c x : FieldCandidate V}
    {others : List (NodeId × FieldCandidate V)} :
    x ∈ causallyMaximal (orderedCandidates ((root, c) :: others)) ↔
      (x = c ∧ ∀ row ∈ others, row.2.supersedes c = false) ∨
        ∃ row ∈ others, row.2 = x ∧ Standing others c row := by
  have hall : ∀ p : FieldCandidate V → Prop,
      (∀ y ∈ orderedCandidates ((root, c) :: others), p y) ↔ p c ∧ ∀ row ∈ others, p row.2 := by
    intro p
    simp only [mem_orderedCandidates, List.mem_cons, Prod.mk.injEq]
    constructor
    · intro h
      exact ⟨h c ⟨root, .inl ⟨rfl, rfl⟩⟩, fun row hrow => h row.2 ⟨row.1, .inr hrow⟩⟩
    · rintro ⟨hc, hothers⟩ y ⟨origin, ⟨-, rfl⟩ | hrow⟩
      · exact hc
      · exact hothers _ hrow
  rw [mem_causallyMaximal, hall, mem_orderedCandidates]
  simp only [List.mem_cons, Prod.mk.injEq]
  constructor
  · rintro ⟨⟨origin, ⟨-, rfl⟩ | hrow⟩, hc, hothers⟩
    · exact .inl ⟨rfl, hothers⟩
    · exact .inr ⟨(origin, x), hrow, rfl, hc, hothers⟩
  · rintro (⟨rfl, hothers⟩ | ⟨row, hrow, rfl, hc, hothers⟩)
    · exact ⟨⟨root, .inl ⟨rfl, rfl⟩⟩, not_supersedes_self x, hothers⟩
    · exact ⟨⟨row.1, .inr hrow⟩, hc, hothers⟩

/-! ### When a value stands alone -/

/-- What the others hold agrees with `n`, was seen by its author, or is
superseded among them. -/
def Yields (others : List (NodeId × FieldCandidate V)) (n : FieldCandidate V) : Prop :=
  ∀ row ∈ others, row.2.value = n.value ∨ n.supersedes row.2 = true ∨
    ∃ row' ∈ others, row'.2.supersedes row.2 = true

omit [JsonValue V] in
/-- Every survivor carries the value of `n` exactly when the others yield to it. -/
theorem survivors_agree_iff {root : NodeId} {n : FieldCandidate V}
    {others : List (NodeId × FieldCandidate V)} :
    (∀ c ∈ causallyMaximal (orderedCandidates ((root, n) :: others)), c.value = n.value) ↔
      Yields others n := by
  simp only [mem_survivors_cons]
  constructor
  · intro h row hrow
    by_contra hnone
    simp only [not_or, not_exists, not_and, Bool.not_eq_true] at hnone
    obtain ⟨hv, hsup, hothers⟩ := hnone
    exact hv (h row.2 (Or.inr ⟨row, hrow, rfl, hsup, hothers⟩))
  · rintro h c (⟨rfl, -⟩ | ⟨row, hrow, rfl, hn, hothers⟩)
    · rfl
    · rcases h row hrow with hv | hsup | ⟨row', hrow', hsup⟩
      · exact hv
      · rw [hn] at hsup
        cases hsup
      · rw [hothers row' hrow'] at hsup
        cases hsup

/-! ### When the request reads back -/

/-- The rows as they were before an apply that writes let the request through. -/
structure AppliesCleanly (K : DefinitionKind V S) (root : NodeId)
    (sources others : List (DefinitionSource V S T)) (requested : BTreeMap String V)
    (stamp : FieldMergeMetadata) : Prop where
  /-- No other root holds a field the request leaves out. -/
  dropped : ∀ f : String, requested[f]? = none → fieldRows K (.spec f) others = []
  /-- What the others hold of a changed field yields to the new value. -/
  replaced : ∀ (f : String) (v : V), requested[f]? = some v → (mergedSpec K sources)[f]? ≠ some v →
    Yields (fieldRows K (.spec f) others) ⟨v, stamp⟩
  /-- An echoed value leads the others' candidates, with the one the written row carries. -/
  echoed : ∀ (f : String) (v : V), requested[f]? = some v → (mergedSpec K sources)[f]? = some v →
    ∀ c, Carries K sources requested stamp f v c →
      Leads (orderedCandidates ((root, c) :: fieldRows K (.spec f) others)) v

section Apply

variable {input : InputMeta} {spec : S} {merge : MergeMetadata V}
  {own object : ResourceObject V S T} {requested : BTreeMap String V} {root : NodeId}
  {sources others : List (DefinitionSource V S T)} {stamp : FieldMergeMetadata} {f : String} {v : V}
  (hw : RowWritten K input spec merge own) (hrequested : specObject K spec = .ok requested)

include hw hrequested

theorem fieldRows_dropped (root : NodeId) (others : List (DefinitionSource V S T))
    (hf : requested[f]? = none) :
    fieldRows K (.spec f) (⟨own, root, none⟩ :: others) = fieldRows K (.spec f) others := by
  rw [fieldRows_cons, hw.candidateOf hrequested, hf]
  rfl

/-- A field the request leaves out is gone exactly when no other root holds it. -/
theorem dropped_iff (hm : Merged K (⟨own, root, none⟩ :: others) object)
    (hf : requested[f]? = none) :
    (mergedSpec K (⟨own, root, none⟩ :: others))[f]? = none ↔
      fieldRows K (.spec f) others = [] := by
  have hrows := fieldRows_dropped hw hrequested root others hf
  rw [lookup_mergedSpec, Option.map_eq_none_iff, List.head?_eq_none_iff]
  constructor
  · intro hnil
    by_contra hne
    rw [← hrows] at hne
    exact hm.survivor (.spec f) hne hnil
  · intro hnil
    exact fieldValues_eq_nil_of_rows (hrows.trans hnil)

variable (happlied : AppliedMerge K sources requested stamp merge)

include happlied

theorem fieldValues_written (root : NodeId) (others : List (DefinitionSource V S T))
    (hf : requested[f]? = some v) :
    ∃ c, Carries K sources requested stamp f v c ∧ c.value = v ∧
      fieldValues K (.spec f) (⟨own, root, none⟩ :: others) =
        mergeField (orderedCandidates ((root, c) :: fieldRows K (.spec f) others)) := by
  obtain ⟨c, hcarries, hvalue, hcand⟩ := own_carries hw hrequested root happlied hf
  refine ⟨c, hcarries, hvalue, ?_⟩
  rw [fieldValues, fieldRows_cons, hcand]

/-- A requested field shows its value, alone, exactly when the others yield to
the candidate the written row carries. -/
theorem alone_iff (hm : Merged K (⟨own, root, none⟩ :: others) object) {c : FieldCandidate V}
    (hf : requested[f]? = some v) (hc : Carries K sources requested stamp f v c) :
    ((mergedSpec K (⟨own, root, none⟩ :: others))[f]? = some v ∧
        ¬ Conflicted K (⟨own, root, none⟩ :: others) (.spec f)) ↔
      Yields (fieldRows K (.spec f) others) c := by
  obtain ⟨c', hcarries, rfl, hvalues⟩ := fieldValues_written hw hrequested happlied root others hf
  obtain rfl := hcarries.unique hc
  have hsurvivor : fieldValues K (.spec f) (⟨own, root, none⟩ :: others) ≠ [] := by
    apply hm.survivor
    rw [fieldRows_cons, hw.candidateOf hrequested, hf]
    exact List.cons_ne_nil _ _
  rw [hvalues] at hsurvivor
  rw [lookup_mergedSpec, Conflicted, hvalues, ← agree_iff hsurvivor]
  exact survivors_agree_iff

/-- An echoed field shows its value exactly when the value leads. -/
theorem echoed_iff (hf : requested[f]? = some v) :
    (mergedSpec K (⟨own, root, none⟩ :: others))[f]? = some v ↔
      ∀ c, Carries K sources requested stamp f v c →
        Leads (orderedCandidates ((root, c) :: fieldRows K (.spec f) others)) v := by
  obtain ⟨c, hcarries, -, hvalues⟩ :=
    fieldValues_written hw hrequested happlied root others hf
  rw [lookup_mergedSpec, hvalues, leads_iff]
  constructor
  · intro h c' hc'
    rw [hc'.unique hcarries]
    exact h
  · intro h
    exact h c hcarries

/-- The merge of the written row with the others shows the request exactly when
the others let it through. -/
theorem written_reads_back_iff
    (hm : Merged K (⟨own, root, none⟩ :: others) object) :
    (mergedSpec K (⟨own, root, none⟩ :: others) = requested ∧
        ∀ (f : String) (v : V), requested[f]? = some v → (mergedSpec K sources)[f]? ≠ some v →
          ¬ Conflicted K (⟨own, root, none⟩ :: others) (.spec f)) ↔
      AppliesCleanly K root sources others requested stamp := by
  constructor
  · rintro ⟨hspec, hconflicts⟩
    refine ⟨fun f hf => ?_, fun f v hf hne => ?_, fun f v hf hsame => ?_⟩
    · rw [← dropped_iff hw hrequested hm hf, hspec, hf]
    · rw [← alone_iff hw hrequested happlied hm hf (Or.inl ⟨.inl hne, rfl⟩), hspec]
      exact ⟨hf, hconflicts f v hf hne⟩
    · rw [← echoed_iff hw hrequested happlied hf, hspec, hf]
  · intro h
    have hreplaced : ∀ f v, requested[f]? = some v →
        (mergedSpec K sources)[f]? ≠ some v → _ := fun f v hf hne =>
      (alone_iff hw hrequested happlied hm hf (Or.inl ⟨.inl hne, rfl⟩)).mpr (h.replaced f v hf hne)
    refine ⟨Std.ExtTreeMap.ext_getElem? fun f => ?_, fun f v hf hne => (hreplaced f v hf hne).2⟩
    cases hf : requested[f]? with
    | none => exact (dropped_iff hw hrequested hm hf).mpr (h.dropped f hf)
    | some v =>
      by_cases hsame : (mergedSpec K sources)[f]? = some v
      · exact (echoed_iff hw hrequested happlied hf).mpr (h.echoed f v hf hsame)
      · exact (hreplaced f v hf hsame).1

end Apply

/-- The conflicts a merged object reports. -/
def conflictsOf (object : ResourceObject V S T) :
    BTreeMap FieldPath (List (MergeConflictSibling V)) :=
  (object.metadata.merge.getD emptyMerge).conflicts

variable {admitted : InputMeta} {requested : BTreeMap String V}
  {sources : List (DefinitionSource V S T)}

theorem mem_conflictsOf {object : ResourceObject V S T} (h : mergeSources K sources = .ok object)
    (path : FieldPath) : path ∈ conflictsOf object ↔ Conflicted K sources path := by
  rw [conflictsOf, (merged_of_mergeSources h).merge, Option.getD_some, mem_mergeConflicts]
  rfl

/-- When a request reads back, on the rows before the apply. -/
def ReadsBack (K : DefinitionKind V S) (root : NodeId)
    (sources others : List (DefinitionSource V S T)) (requested : BTreeMap String V)
    (admitted : InputMeta) (stamp : FieldMergeMetadata) : Prop :=
  (¬ Changed K sources requested admitted → ∀ f ∈ mergedSpec K sources, f ∈ requested) ∧
    (Changed K sources requested admitted → AppliesCleanly K root sources others requested stamp)

omit [JsonValue V] in
theorem specObject_inj {spec : S} {a b : BTreeMap String V} (ha : specObject K spec = .ok a) :
    specObject K spec = .ok b ↔ a = b := by
  rw [ha, Except.ok.injEq]

/-- With nothing to write, every requested value is the merged one. -/
theorem lookup_of_unchanged (h : ¬ Changed K sources requested admitted) {f : String} {v : V}
    (hf : requested[f]? = some v) : (mergedSpec K sources)[f]? = some v := by
  by_contra hne
  exact h (Or.inr (Or.inr (Or.inl ⟨f, v, hf, .inl hne⟩)))

theorem unchanged_reads_back_iff (h : ¬ Changed K sources requested admitted) :
    mergedSpec K sources = requested ↔ ∀ f ∈ mergedSpec K sources, f ∈ requested := by
  constructor
  · intro heq f hf
    rw [← heq]
    exact hf
  · intro hsub
    refine Std.ExtTreeMap.ext_getElem? fun f => ?_
    cases hf : requested[f]? with
    | some v => exact lookup_of_unchanged h hf
    | none =>
      rw [← Option.not_isSome_iff_eq_none, ← Std.ExtTreeMap.mem_iff_isSome_getElem?]
      intro hmem
      have hreq := hsub f hmem
      rw [Std.ExtTreeMap.mem_iff_isSome_getElem?, hf] at hreq
      cases hreq

variable [DecidableEq V]

/-- **The applied spec reads back** with no changed field in conflict exactly
when the rows let it through: with nothing to write, the merged view has no
field beyond the request; otherwise the others' rows give way to it. -/
theorem applyAs_reads_back_iff {r : Resolver V S T} {d d' : Definitions V S T}
    {writer : WriterIdentity} {input : InputMeta} {spec : S} {now createdAt : Timestamp}
    {object : ResourceObject V S T} {requested : BTreeMap String V}
    (h : applyAs r d writer input spec now createdAt = (d', .ok object))
    (hrequested : specObject r.K spec = .ok requested) :
    (get r d' input.name = .ok object ∧ specObject r.K object.spec = .ok requested ∧
        ∀ (f : String) (v : V), requested[f]? = some v →
          (mergedSpec r.K (sourcesForName r d input.name))[f]? ≠ some v →
          FieldPath.spec f ∉ conflictsOf object) ↔
      ReadsBack r.K r.localRoot (sourcesForName r d input.name) (replicaSources d input.name)
        requested { input with deletionTimestamp := none }
        (nextStamp r.localRoot (causalContext (sourcesForName r d input.name)) writer now) := by
  obtain ⟨-, requested', hrequested', hcases⟩ := applyAs_ok h
  obtain rfl : requested' = requested := (specObject_inj hrequested').mp hrequested
  simp only [get_of_applyAs h, true_and]
  rcases hcases with ⟨hunchanged, rfl, hmerge⟩ |
    ⟨hchanged, -, own, merge, hw, happlied, hsources, -, hmerge, -⟩
  · rw [specObject_inj (merged_of_mergeSources hmerge).specObject,
      unchanged_reads_back_iff hunchanged]
    constructor
    · rintro ⟨hsub, -⟩
      exact ⟨fun _ => hsub, fun hc => absurd hc hunchanged⟩
    · rintro ⟨hsub, -⟩
      exact ⟨hsub hunchanged, fun f v hf hne => absurd (lookup_of_unchanged hunchanged hf) hne⟩
  · have hm := merged_of_mergeSources hmerge
    rw [specObject_inj hm.specObject]
    simp only [mem_conflictsOf hmerge]
    rw [hsources] at hm ⊢
    rw [written_reads_back_iff hw hrequested happlied hm]
    constructor
    · intro hclean
      exact ⟨fun hn => absurd hchanged hn, fun _ => hclean⟩
    · rintro ⟨-, hclean⟩
      exact hclean hchanged

/-- A designation that names its fleet. -/
def namedFleet : Definitions Json FleetDesignationSpec Unit :=
  firstFleet "b" { fleet := some "blue", project := "harbour" } 100

theorem applyAs_reads_back_iff_moved :
    ∃ d' object,
      applyAs (fleetResolver "b" ["harbour", "dock"]) namedFleet fleetWriter fleetInput
        { fleet := some "blue", project := "dock" } 200 200 = (d', .ok object) ∧
      ((get (fleetResolver "b" ["harbour", "dock"]) d' "fleet" = .ok object ∧
        specObject fleetDesignation object.spec =
          .ok (FleetDesignationSpec.encode { fleet := some "blue", project := "dock" }) ∧
        ∀ (f : String) (v : Json),
          (FleetDesignationSpec.encode { fleet := some "blue", project := "dock" })[f]? = some v →
          (mergedSpec fleetDesignation (sourcesForName (fleetResolver "b" ["harbour", "dock"])
            namedFleet "fleet"))[f]? ≠ some v →
          FieldPath.spec f ∉ conflictsOf object) ↔
        ReadsBack fleetDesignation "b"
          (sourcesForName (fleetResolver "b" ["harbour", "dock"]) namedFleet "fleet")
          (replicaSources namedFleet "fleet")
          (FleetDesignationSpec.encode { fleet := some "blue", project := "dock" }) fleetInput
          (nextStamp "b" (causalContext (sourcesForName (fleetResolver "b" ["harbour", "dock"])
            namedFleet "fleet")) fleetWriter 200)) := by
  obtain ⟨d', object, h, -⟩ := Outcome.exists_ok (f := fun _ => ()) (b := ())
    (x := applyAs (fleetResolver "b" ["harbour", "dock"]) namedFleet fleetWriter fleetInput
      { fleet := some "blue", project := "dock" } 200 200) (by decide +kernel)
  exact ⟨d', object, h, applyAs_reads_back_iff h rfl⟩

/-- Applying the designation without its fleet writes nothing, and the fleet
still reads back. -/
theorem applyAs_keeps_dropped_fleet :
    ∃ d' object,
      applyAs (fleetResolver "b" ["harbour", "dock"]) namedFleet fleetWriter fleetInput
        { project := "harbour" } 200 200 = (d', .ok object) ∧
      object.spec = { fleet := some "blue", project := "harbour" } :=
  Outcome.exists_ok (by decide +kernel)

end Flotilla.Definition
