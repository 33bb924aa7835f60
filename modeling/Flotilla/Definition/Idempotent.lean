import Flotilla.Definition.ReadBack
import Flotilla.Definition.Context

/-!
# Applying the same definition twice

The second apply compares the request with the merged view of what the first one
left, and the view takes its metadata from the row of the smallest origin, not
from the row the apply wrote.  `Settled` says on the rows before the first apply
when the second finds nothing to do:

* the smallest origin's row already shows the requested metadata, or it is the
  root's own row and the request carries no annotation the store strips,
* no other root's deletion outlives the apply,
* the others yield to what the written row carries of every requested field.

When the first apply wrote nothing the second one writes nothing either.
-/

namespace Flotilla.Definition

open Lib
open Memory

variable {V S T : Type} [JsonValue V] {K : DefinitionKind V S}

/-! ### The metadata the view shows -/

section View

variable {sources others : List (DefinitionSource V S T)} {object own : ResourceObject V S T}
  {requested : BTreeMap String V} {admitted : InputMeta}

theorem Merged.toInputMeta (h : Merged K sources object) :
    ∃ first, (sortByOrigin sources).head? = some first ∧
      object.metadata.toInputMeta = { first.object.metadata.toInputMeta with
        deletionTimestamp := chosenDeletion (mergedValues K sources) } := by
  obtain ⟨first, hfirst, hobject⟩ := h.first
  refine ⟨first, hfirst, ?_⟩
  rw [hobject]
  rfl

omit [JsonValue V] in
/-- The smallest origin is the new row's unless another root's is smaller. -/
theorem head_sortByOrigin_cons (source : DefinitionSource V S T) :
    (sortByOrigin (source :: others)).head? =
      match (sortByOrigin others).head? with
      | some first => if source.origin ≤ first.origin then some source else some first
      | none => some source := by
  show (List.orderedInsert (fun left right => left.origin ≤ right.origin)
    source (sortByOrigin others)).head? = _
  cases hsorted : sortByOrigin others with
  | nil => rfl
  | cons first rest =>
    by_cases hle : source.origin ≤ first.origin
    · simp [hle]
    · simp [hle]

omit [JsonValue V] in
theorem origin_le_of_head {first : DefinitionSource V S T}
    (h : (sortByOrigin others).head? = some first) :
    ∀ source ∈ others, first.origin ≤ source.origin := by
  intro source hsource
  have hsorted : (sortByOrigin others).Pairwise fun left right => left.origin ≤ right.origin :=
    List.pairwise_insertionSort _ _
  rw [← mem_sortByOrigin] at hsource
  cases hlist : sortByOrigin others with
  | nil => rw [hlist] at h; cases h
  | cons head rest =>
    rw [hlist] at h hsorted hsource
    cases h
    rcases List.mem_cons.mp hsource with rfl | hmem
    · exact le_refl _
    · exact List.rel_of_pairwise_cons hsorted hmem

/-- Nothing to write, said of a merged view. -/
theorem not_changed_iff (h : mergeSources K sources = .ok object) :
    ¬ Changed K sources requested admitted ↔
      object.metadata.toInputMeta = admitted ∧
      (∀ (f : String) (v : V), requested[f]? = some v →
        (mergedSpec K sources)[f]? = some v ∧ ¬ Conflicted K sources (.spec f)) ∧
      ¬ Conflicted K sources .deleted ∧
      (chosenDeletion (mergedValues K sources)).isSome = false := by
  have hne : sources ≠ [] := by
    rintro rfl
    cases h
  constructor
  · intro hunchanged
    have hfields : ∀ f v, requested[f]? = some v →
        (mergedSpec K sources)[f]? = some v := fun f v hf => lookup_of_unchanged hunchanged hf
    refine ⟨?_, fun f v hf => ⟨hfields f v hf, fun hconflict => ?_⟩, ?_, ?_⟩
    · by_contra hmeta
      exact hunchanged (Or.inr (Or.inl ⟨object, h, hmeta⟩))
    · refine hunchanged (Or.inr (Or.inr (Or.inl ⟨f, v, hf, .inr ⟨?_, hconflict⟩⟩)))
      rintro ⟨g, w, hg, hchanged⟩
      exact hchanged (hfields g w hg)
    · exact fun hconflict => hunchanged (Or.inr (Or.inr (Or.inr (Or.inl hconflict))))
    · rw [← Bool.not_eq_true]
      exact fun hdeleted => hunchanged (Or.inr (Or.inr (Or.inr (Or.inr hdeleted))))
  · rintro ⟨hmeta, hfields, hmarker, hlive⟩ hchanged
    rcases hchanged with hnil | ⟨current, hcurrent, hcmeta⟩ | ⟨f, v, hf, hauthored⟩ | hconflict |
      hdeleted
    · exact hne hnil
    · rw [h] at hcurrent
      cases hcurrent
      exact hcmeta hmeta
    · rcases hauthored with hchange | ⟨-, hconflict⟩
      · exact hchange (hfields f v hf).1
      · exact (hfields f v hf).2 hconflict
    · exact hmarker hconflict
    · rw [hlive] at hdeleted
      cases hdeleted

end View

/-! ### After an apply that wrote -/

/-- On the rows before an apply that writes: the same apply will find nothing to do. -/
structure Settled (K : DefinitionKind V S) (root : NodeId)
    (sources others : List (DefinitionSource V S T)) (requested : BTreeMap String V)
    (admitted : InputMeta) (stamp : FieldMergeMetadata) : Prop where
  /-- The root's own row comes first, and shows the metadata as requested. -/
  ownFirst : (∀ source ∈ others, root ≤ source.origin) →
    bootstrapPathAnnotation ∉ admitted.annotations
  /-- Another root's row comes first, and already shows the requested metadata. -/
  otherFirst : ∀ first, (sortByOrigin others).head? = some first → first.origin < root →
    { first.object.metadata.toInputMeta with deletionTimestamp := none } = admitted
  /-- No other root's deletion outlives the apply. -/
  live : Yields (fieldRows K .deleted others) ⟨JsonValue.ofBool false, stamp⟩
  fields : ∀ (f : String) (v : V) (c : FieldCandidate V), requested[f]? = some v →
    Carries K sources requested stamp f v c → Yields (fieldRows K (.spec f) others) c

section Written

variable {spec : S} {merge : MergeMetadata V} {own object : ResourceObject V S T}
  {requested : BTreeMap String V} {admitted : InputMeta} {root : NodeId}
  {sources others : List (DefinitionSource V S T)} {stamp : FieldMergeMetadata}

theorem ofBool_ne : (JsonValue.ofBool true : V) ≠ JsonValue.ofBool false := by
  intro h
  have hbool := congrArg JsonValue.asBool h
  rw [JsonValue.asBool_ofBool, JsonValue.asBool_ofBool] at hbool
  cases hbool

/-- Every deletion marker is a boolean. -/
theorem value_of_mem_fieldValues_deleted {c : FieldCandidate V}
    (h : c ∈ fieldValues K .deleted sources) : ∃ b, c.value = JsonValue.ofBool b := by
  obtain ⟨origin, hrow⟩ := mem_of_mem_fieldValues h
  obtain ⟨source, -, -, hc⟩ := mem_fieldRows.mp hrow
  cases hc
  exact ⟨_, rfl⟩

variable (hw : RowWritten K admitted spec merge own) (hlive : admitted.deletionTimestamp = none)
  (hm : Merged K (⟨own, root, none⟩ :: others) object)
  (happlied : AppliedMerge K sources requested stamp merge)

include hw hlive happlied in
theorem fieldRows_deleted_written (root : NodeId) (others : List (DefinitionSource V S T)) :
    fieldRows K .deleted (⟨own, root, none⟩ :: others) =
      (root, ⟨JsonValue.ofBool false, stamp⟩) :: fieldRows K .deleted others := by
  have hown : own.metadata.deletionTimestamp = none := by
    have hinput := congrArg InputMeta.deletionTimestamp hw.inputMeta
    exact hinput.trans hlive
  rw [fieldRows_cons]
  simp only [candidateOf, deletionCandidate, fieldMetadata, hown, hw.merge, Option.bind_some,
    happlied.deleted, Option.getD_some, Option.isSome_none]

include hw hlive hm

include happlied in
/-- The view is live and unconflicted exactly when the others' deletions yield. -/
theorem live_iff :
    (¬ Conflicted K (⟨own, root, none⟩ :: others) .deleted ∧
        (chosenDeletion (mergedValues K (⟨own, root, none⟩ :: others))).isSome = false) ↔
      Yields (fieldRows K .deleted others) ⟨JsonValue.ofBool false, stamp⟩ := by
  have hrows := fieldRows_deleted_written hw hlive happlied root others
  have hsurvivor : fieldValues K .deleted (⟨own, root, none⟩ :: others) ≠ [] := by
    apply hm.survivor
    exact List.cons_ne_nil _ _
  have hchosen : (chosenDeletion (mergedValues K (⟨own, root, none⟩ :: others))).isSome = false ↔
      (fieldValues K .deleted (⟨own, root, none⟩ :: others)).head?.map (·.value) =
        some (JsonValue.ofBool false) := by
    rw [← Bool.not_eq_true, isSome_chosenDeletion]
    cases hvalues : fieldValues K .deleted (⟨own, root, none⟩ :: others) with
    | nil => exact absurd hvalues hsurvivor
    | cons c rest =>
      obtain ⟨b, hb⟩ := value_of_mem_fieldValues_deleted
        (show c ∈ fieldValues K .deleted (⟨own, root, none⟩ :: others) by simp [hvalues])
      cases b with
      | false => simp [hb, JsonValue.asBool_ofBool]
      | true => simp [hb, JsonValue.asBool_ofBool, ofBool_ne]
  rw [hchosen, and_comm, Conflicted, fieldValues, hrows]
  rw [fieldValues, hrows] at hsurvivor
  rw [← agree_iff hsurvivor]
  exact survivors_agree_iff

/-- The view shows the requested metadata exactly when its first row does. -/
theorem toInputMeta_written_iff (hname : own.metadata.name = admitted.name)
    (hchosen : (chosenDeletion (mergedValues K (⟨own, root, none⟩ :: others))).isSome = false) :
    object.metadata.toInputMeta = admitted ↔
      ((∀ source ∈ others, root ≤ source.origin) →
        bootstrapPathAnnotation ∉ admitted.annotations) ∧
      (∀ first, (sortByOrigin others).head? = some first → first.origin < root →
        { first.object.metadata.toInputMeta with deletionTimestamp := none } = admitted) := by
  obtain ⟨first, hfirst, hmeta⟩ := hm.toInputMeta
  have hnone : chosenDeletion (mergedValues K (⟨own, root, none⟩ :: others)) = none := by
    rw [← Option.not_isSome_iff_eq_none, hchosen]
    exact Bool.false_ne_true
  have hown : { own.metadata.toInputMeta with deletionTimestamp := none } = admitted ↔
      bootstrapPathAnnotation ∉ admitted.annotations := by
    rw [← BTreeMap.erase_eq_self_iff, hw.inputMeta, hname]
    constructor
    · intro h
      exact congrArg InputMeta.annotations h
    · intro h
      rw [h, ← hlive]
  rw [hmeta, hnone]
  rw [head_sortByOrigin_cons] at hfirst
  cases hothers : (sortByOrigin others).head? with
  | none =>
    rw [hothers] at hfirst
    obtain rfl := Option.some.inj hfirst
    rw [hown]
    have hnil : others = [] := by
      rw [List.eq_nil_iff_forall_not_mem]
      intro source hsource
      rw [← mem_sortByOrigin, List.head?_eq_none_iff.mp hothers] at hsource
      exact List.not_mem_nil hsource
    subst hnil
    simp
  | some other =>
    have hsmallest := origin_le_of_head hothers
    by_cases hle : root ≤ other.origin
    · simp only [hothers, if_pos hle] at hfirst
      obtain rfl := Option.some.inj hfirst
      rw [hown]
      constructor
      · intro h
        refine ⟨fun _ => h, fun first hsome hlt => ?_⟩
        obtain rfl := Option.some.inj hsome
        exact absurd hlt (not_lt.mpr hle)
      · rintro ⟨h, -⟩
        exact h fun source hsource => le_trans hle (hsmallest source hsource)
    · simp only [hothers, if_neg hle] at hfirst
      obtain rfl := Option.some.inj hfirst
      constructor
      · intro h
        refine ⟨fun hroot => ?_, fun first hsome _ => ?_⟩
        · exact absurd (hroot other (mem_sortByOrigin.mp (List.mem_of_mem_head? hothers))) hle
        · obtain rfl := Option.some.inj hsome
          exact h
      · rintro ⟨-, h⟩
        exact h other rfl (not_le.mp hle)

omit hm in
include happlied in
/-- **After an apply that wrote, the same request changes nothing** exactly when
the rows before it were settled. -/
theorem not_changed_written_iff (hrequested : specObject K spec = .ok requested)
    (hname : own.metadata.name = admitted.name)
    (hmerge : mergeSources K (⟨own, root, none⟩ :: others) = .ok object) :
    ¬ Changed K (⟨own, root, none⟩ :: others) requested admitted ↔
      Settled K root sources others requested admitted stamp := by
  have hm := merged_of_mergeSources hmerge
  rw [not_changed_iff hmerge, live_iff hw hlive hm happlied]
  constructor
  · rintro ⟨hmeta, hfields, hyields⟩
    have hchosen := ((live_iff hw hlive hm happlied).mpr hyields).2
    obtain ⟨hown, hother⟩ := (toInputMeta_written_iff hw hlive hm hname hchosen).mp hmeta
    refine ⟨hown, hother, hyields, fun f v c hf hc => ?_⟩
    exact (alone_iff hw hrequested happlied hm hf hc).mp (hfields f v hf)
  · rintro ⟨hown, hother, hyields, hfields⟩
    have hchosen := ((live_iff hw hlive hm happlied).mpr hyields).2
    refine ⟨(toInputMeta_written_iff hw hlive hm hname hchosen).mpr ⟨hown, hother⟩,
      fun f v hf => ?_, hyields⟩
    obtain ⟨c, hc, -, -⟩ := own_carries hw hrequested root happlied hf
    exact (alone_iff hw hrequested happlied hm hf hc).mpr (hfields f v c hf hc)

end Written

/-! ### The second apply -/

variable [DecidableEq V]
  {input : InputMeta} {requested : BTreeMap String V}

/-- An apply that finds nothing to change leaves the store as it is. -/
theorem applyAs_of_not_changed {r : Resolver V S T} {d : Definitions V S T} {spec : S}
    (hrequested : specObject r.K spec = .ok requested)
    (h : ¬ Changed r.K (sourcesForName r d input.name) requested
      { input with deletionTimestamp := none }) (writer : WriterIdentity)
    (now createdAt : Timestamp) : (applyAs r d writer input spec now createdAt).1 = d := by
  unfold applyAs
  cases hplan : planApply r d writer input spec now with
  | error e => rfl
  | ok plan =>
    obtain ⟨requested', hrequested', ⟨-, current, -, rfl⟩ | ⟨hchanged, -⟩⟩ := planApply_ok hplan
    · rfl
    · obtain rfl := (specObject_inj hrequested').mp hrequested
      exact absurd hchanged h

omit [DecidableEq V] in
/-- An apply that wrote moved the root's own counter, so the store changed. -/
theorem ne_of_counter_lt {K : DefinitionKind V S} {root : NodeId} {writer : WriterIdentity}
    {now : Timestamp} {spec : S} {merge : MergeMetadata V} {own : ResourceObject V S T}
    {sources rest : List (DefinitionSource V S T)} (hw : RowWritten K input spec merge own)
    (happlied : AppliedMerge K sources requested (nextStamp root (causalContext sources) writer now)
      merge) (hcounter : (causalContext sources).counter root < u64Max) :
    sources ≠ ⟨own, root, none⟩ :: rest := by
  intro hsources
  have hcovers : (causalContext sources).covers
      ⟨root, saturatingAdd ((causalContext sources).counter root) 1⟩ = true := by
    rw [covers_causalContext]
    refine ⟨⟨own, root, none⟩, by rw [hsources]; exact List.mem_cons_self, ?_⟩
    simp only [RowCovers, hw.merge]
    refine .inl ?_
    rw [happlied.seen, VersionVector.covers_iff]
    exact ⟨saturatingAdd ((causalContext sources).counter root) 1, by simp [nextStamp], le_refl _⟩
  have hle := VersionVector.le_counter_of_covers hcovers
  simp only [saturatingAdd] at hle
  omega

/-- Nothing to do the second time, on the rows before the first. -/
def AppliesOnce (K : DefinitionKind V S) (root : NodeId)
    (sources others : List (DefinitionSource V S T)) (requested : BTreeMap String V)
    (admitted : InputMeta) (stamp : FieldMergeMetadata) : Prop :=
  Changed K sources requested admitted → Settled K root sources others requested admitted stamp

/-- **Applying twice is applying once** exactly when the rows were settled.  A
settled second apply leaves the store as it was whatever its writer and time;
one that succeeds on unsettled rows writes a row and advances the counter. -/
theorem applyAs_twice_iff {r : Resolver V S T} {d d₁ : Definitions V S T}
    {writer : WriterIdentity} {input : InputMeta} {spec : S} {now createdAt : Timestamp}
    {object : ResourceObject V S T} {requested : BTreeMap String V}
    (hnamed : OwnRowNamed d input.name)
    (hfirst : applyAs r d writer input spec now createdAt = (d₁, .ok object))
    (hrequested : specObject r.K spec = .ok requested) :
    let settles := AppliesOnce r.K r.localRoot (sourcesForName r d input.name)
      (replicaSources d input.name) requested { input with deletionTimestamp := none }
      (nextStamp r.localRoot (causalContext (sourcesForName r d input.name)) writer now)
    (settles → ∀ writer' now' createdAt',
      (applyAs r d₁ writer' input spec now' createdAt').1 = d₁) ∧
    (∀ writer' now' createdAt' d₂ object₂,
      applyAs r d₁ writer' input spec now' createdAt' = (d₂, .ok object₂) →
      (causalContext (sourcesForName r d₁ input.name)).counter r.localRoot < u64Max →
      (d₂ = d₁ ↔ settles)) := by
  intro settles
  obtain ⟨-, requested', hrequested', hcases⟩ := applyAs_ok hfirst
  obtain rfl := (specObject_inj hrequested').mp hrequested
  have hiff : settles ↔ ¬ Changed r.K (sourcesForName r d₁ input.name) requested'
      { input with deletionTimestamp := none } := by
    rcases hcases with ⟨hunchanged, rfl, -⟩ |
      ⟨hchanged, -, own, merge, hw, happlied, hsources, -, hmerge, -, hown⟩
    · exact ⟨fun _ => hunchanged, fun _ hchanged => absurd hchanged hunchanged⟩
    · rw [hsources] at hmerge ⊢
      rw [not_changed_written_iff hw rfl happlied hrequested (hown hnamed) hmerge]
      exact ⟨fun h => h hchanged, fun h _ => h⟩
  refine ⟨fun h => applyAs_of_not_changed hrequested (hiff.mp h), ?_⟩
  intro writer' now' createdAt' d₂ object₂ hsecond hcounter
  rw [hiff]
  obtain ⟨-, requested₂, hrequested₂, hcases₂⟩ := applyAs_ok hsecond
  obtain rfl := (specObject_inj hrequested₂).mp hrequested
  rcases hcases₂ with ⟨hunchanged, rfl, -⟩ |
    ⟨hchanged, -, own, merge, hw, happlied, hsources, -, -, -, -⟩
  · exact ⟨fun _ => hunchanged, fun _ => rfl⟩
  · constructor
    · rintro rfl
      exact absurd hsources (ne_of_counter_lt hw happlied hcounter)
    · intro hunchanged
      exact absurd hchanged hunchanged

/-- `b` settles the conflict with `a` on the project, and applies the same again. -/
theorem applyAs_twice_iff_contested :
    ∃ d₁ object,
      applyAs (fleetResolver "b" ["harbour", "dock"]) twoProjects fleetWriter fleetInput
        { project := "dock" } 200 200 = (d₁, .ok object) ∧
      ∀ writer now createdAt, (applyAs (fleetResolver "b" ["harbour", "dock"]) d₁ writer fleetInput
        { project := "dock" } now createdAt).1 = d₁ := by
  obtain ⟨d₁, object, h, -⟩ := Outcome.exists_ok (f := fun _ => ()) (b := ())
    (x := applyAs (fleetResolver "b" ["harbour", "dock"]) twoProjects fleetWriter fleetInput
      { project := "dock" } 200 200) (by decide +kernel)
  let sources := sourcesForName (fleetResolver "b" ["harbour", "dock"]) twoProjects "fleet"
  let others := replicaSources twoProjects "fleet"
  let requested := FleetDesignationSpec.encode { project := "dock" }
  let stamp := nextStamp "b" (causalContext sources) fleetWriter 200
  have hnamed : twoProjects.store.objects["fleet"]?.all (·.metadata.name = "fleet") = true := by
    decide +kernel
  have hmeta : (sortByOrigin others).head?.all (fun first =>
      { first.object.metadata.toInputMeta with deletionTimestamp := none } = fleetInput) =
        true := by
    decide +kernel
  have hlive : (fieldRows fleetDesignation .deleted others).all (fun row =>
      row.2.value = JsonValue.ofBool false) = true := by
    decide +kernel
  have hfields : requested.toList.all (fun entry =>
      (mergedSpec fleetDesignation sources)[entry.1]? ≠ some entry.2 ∧
        (fieldRows fleetDesignation (.spec entry.1) others).all fun row =>
          FieldCandidate.supersedes ⟨entry.2, stamp⟩ row.2) = true := by
    decide +kernel
  refine ⟨d₁, object, h, (applyAs_twice_iff (fun row hrow => ?_) h rfl).1 fun _ => ⟨fun _ => ?_,
    fun first hfirst _ => ?_, fun row hrow => ?_, fun f v c hf hc row hrow => ?_⟩⟩
  · exact of_decide_eq_true ((Option.all_eq_true _ _).mp hnamed row hrow)
  · show bootstrapPathAnnotation ∉ ∅
    simp
  · exact of_decide_eq_true ((Option.all_eq_true _ _).mp hmeta first hfirst)
  · exact .inl (of_decide_eq_true (List.all_eq_true.mp hlive row hrow))
  · have hentry := of_decide_eq_true (List.all_eq_true.mp hfields (f, v)
      (Std.ExtTreeMap.mem_toList_iff_getElem?_eq_some.mpr hf))
    rcases hc with ⟨-, rfl⟩ | ⟨hechoed, -⟩
    · exact .inr (.inl (List.all_eq_true.mp hentry.2 row hrow))
    · exact absurd (.inl hentry.1) hechoed

/-- Two roots agree on the project; the smaller one's row shows no label. -/
def agreedFleets : Definitions Json FleetDesignationSpec Unit :=
  concurrentFleets { project := "harbour" } { project := "harbour" }

def labelledInput : InputMeta :=
  { fleetInput with labels := (∅ : BTreeMap String String).insert "tier" "core" }

def labelledOnce : Definitions Json FleetDesignationSpec Unit :=
  (applyAs (fleetResolver "b" ["harbour", "dock"]) agreedFleets fleetWriter labelledInput
    { project := "harbour" } 200 200).1

/-- The larger root applies a label twice, and writes a row both times. -/
theorem applyAs_twice_writes_again :
    (mergeSources fleetDesignation (sourcesForName (fleetResolver "b" ["harbour", "dock"])
        agreedFleets "fleet")).toOption.map (fun view => (conflictsOf view).isEmpty) = some true ∧
    agreedFleets.store.currentVersion = 1 ∧ labelledOnce.store.currentVersion = 2 ∧
    ∃ d₂ object,
      applyAs (fleetResolver "b" ["harbour", "dock"]) labelledOnce fleetWriter labelledInput
        { project := "harbour" } 200 200 = (d₂, .ok object) ∧ d₂ ≠ labelledOnce := by
  refine ⟨by decide +kernel, by decide +kernel, by decide +kernel, ?_⟩
  obtain ⟨d₂, object, h, -⟩ := Outcome.exists_ok (f := fun _ => ()) (b := ())
    (x := applyAs (fleetResolver "b" ["harbour", "dock"]) labelledOnce fleetWriter labelledInput
      { project := "harbour" } 200 200) (by decide +kernel)
  have hversion : (applyAs (fleetResolver "b" ["harbour", "dock"]) labelledOnce fleetWriter
      labelledInput { project := "harbour" } 200 200).1.store.currentVersion ≠
        labelledOnce.store.currentVersion := by
    decide +kernel
  refine ⟨d₂, object, h, fun heq => hversion ?_⟩
  rw [h, heq]

end Flotilla.Definition
