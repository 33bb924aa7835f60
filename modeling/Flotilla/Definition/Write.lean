import Flotilla.Definition.Resolver

/-!
# What a definition write leaves behind

`writeLocal` goes through the local stream's create or update.  Whatever branch
it takes, a successful write leaves one row of the root's own with the stamps,
the spec and the metadata it was given (`writeLocal_ok`), and a failed one
leaves every row as it was (`writeLocal_failed`).  Later files read the rows
after a write through these two facts only.
-/

namespace Flotilla.Definition

open Lib
open Memory

variable {V S T : Type}

/-- `row` reads as the given metadata, spec and stamps. -/
structure RowWritten (K : DefinitionKind V S) (input : InputMeta) (spec : S)
    (merge : MergeMetadata V) (row : ResourceObject V S T) : Prop where
  merge : row.metadata.merge = some merge
  encodes : ∃ fields, specObject K spec = .ok fields ∧ specObject K row.spec = .ok fields
  inputMeta : row.metadata.toInputMeta = { input with
    name := row.metadata.name
    annotations := input.annotations.erase bootstrapPathAnnotation }

theorem mixture_singleton (fields : BTreeMap String V) : Mixture [fields] fields where
  nonempty := by simp
  mem_iff := by simp
  value f v h := ⟨fields, by simp, h⟩

variable {K : DefinitionKind V S} {createdAt : Timestamp} {fields : BTreeMap String V}
  {input : InputMeta} {merge : MergeMetadata V} {name : String} {object : ResourceObject V S T}
  {r : Resolver V S T} {spec : S}

/-- What is decoded from an encoding encodes to it again. -/
theorem toObject_of_transcode {spec spec' : S} (h : transcode K spec = .ok spec') :
    ∃ fields, K.toObject spec = .ok (some fields) ∧ K.toObject spec' = .ok (some fields) := by
  unfold transcode at h
  split at h
  · cases h
  · cases h
  · rename_i fields hfields
    split at h
    · cases h
    · rename_i decoded hdecoded
      cases h
      refine ⟨fields, hfields, K.encode_mixture [fields] fields spec' ?_
        (mixture_singleton fields) hdecoded⟩
      intro part hpart
      rw [List.mem_singleton.mp hpart]
      exact ⟨spec, hfields⟩

theorem specObject_of_toObject (h : K.toObject spec = .ok (some fields)) :
    specObject K spec = .ok fields := by
  rw [specObject, h]

theorem toObject_of_specObject (h : specObject K spec = .ok fields) :
    K.toObject spec = .ok (some fields) := by
  unfold specObject at h
  split at h
  · cases h
  · cases h
  · rename_i fields' hfields
    cases h
    exact hfields

theorem toInputMeta_stripped_of_eq {o : ResourceObject V S T}
    (h : o.stripped.metadata.toInputMeta = input) :
    input.annotations.erase bootstrapPathAnnotation = input.annotations := by
  rw [← h]
  have hstrip := congrArg (fun o => o.metadata.annotations)
    o.stripped_stripped
  exact hstrip

variable [DecidableEq V]

theorem create_ok {s s' : ResourceStore V S T}
    (h : createTypedWithMerge r.stream createdAt s input spec (some merge) = (s', .ok object)) :
    ∃ row, RowWritten r.K input spec merge row.stripped ∧ row.metadata.name = input.name ∧
      s'.objects = s.objects.insert input.name row := by
  rcases runPlan_cases h with
    ⟨-, hdone⟩ | ⟨_, -, -, -, hnot⟩ | ⟨_, -, prepare, change, a, hplan, hprep, -, hs'⟩
  · obtain ⟨status, -, hplan⟩ := bind_eq_ok (hdone object rfl)
    cases hplan
  · exact absurd rfl (hnot object)
  · obtain ⟨status, -, hplan⟩ := bind_eq_ok hplan
    cases hplan
    obtain ⟨spec', hspec, hprep⟩ := bind_eq_ok hprep
    cases hprep
    obtain ⟨fields, hfields, hfields'⟩ := toObject_of_transcode hspec
    refine ⟨(createdObject r.ns createdAt input spec' (some merge) status s.nextVersion).stripped,
      ⟨rfl, ⟨fields, specObject_of_toObject hfields, specObject_of_toObject hfields'⟩, ?_⟩, rfl, ?_⟩
    · rw [ResourceObject.stripped_stripped]
      rfl
    · rw [hs']
      rfl

theorem toObject_of_sameObject {current requested : S}
    (hfields : K.toObject requested = .ok (some fields))
    (h : sameObject K current requested = .ok true) : K.toObject current = .ok (some fields) := by
  unfold sameObject at h
  rw [hfields] at h
  cases hcurrent : K.toObject current with
  | error e => rw [hcurrent] at h; cases h
  | ok object =>
    rw [hcurrent] at h
    have heq : object = some fields := by simpa using Except.ok.inj h
    rw [heq]

theorem update_ok {s s' : ResourceStore V S T} {version : String}
    (h : updateTypedWithMerge r.stream s input version spec (some merge) = (s', .ok object)) :
    ∃ row, RowWritten r.K input spec merge row.stripped ∧
      (∃ old, s.objects[input.name]? = some old ∧ row.metadata.name = old.metadata.name) ∧
      (s'.objects = s.objects.insert input.name row ∨
        s' = s ∧ s.objects[input.name]? = some row) := by
  have hread : ∀ {o : ResourceObject V S T} {unchanged : Bool},
      admitUpdate r.stream s input version spec (some merge) = .ok (o, unchanged) →
      ∃ row, s.objects[input.name]? = some row ∧ o = row.stripped ∧
        (unchanged = true → o.metadata.toInputMeta = input ∧ o.metadata.merge = some merge ∧
          ∃ fields, specObject r.K spec = .ok fields ∧ specObject r.K o.spec = .ok fields) := by
    intro o unchanged hadmits
    obtain ⟨o', ho, hadmits⟩ := bind_eq_ok hadmits
    obtain ⟨-, -, hadmits⟩ := bind_eq_ok hadmits
    obtain ⟨_, hvalid, hadmits⟩ := bind_eq_ok hadmits
    obtain ⟨-, -, hadmits⟩ := bind_eq_ok hadmits
    obtain ⟨sameInput, hsame, hadmits⟩ := bind_eq_ok hadmits
    obtain ⟨hoo, hunchanged⟩ := Prod.mk.inj (Except.ok.inj hadmits)
    subst hoo
    obtain ⟨row, hrow, hstripped, -⟩ := readAtVersion_ok ho
    refine ⟨row, hrow, hstripped, fun hu => ?_⟩
    obtain ⟨sameSpec, hspec, hsame⟩ := bind_eq_ok hsame
    rw [← hunchanged] at hu
    simp only [reduceCtorEq, false_or, decide_eq_true_eq] at hu
    obtain ⟨hinput, hmerge⟩ := hu
    rw [← Except.ok.inj hsame] at hinput
    simp only [decide_eq_true_eq] at hinput
    obtain ⟨hinput, rfl⟩ := hinput
    obtain ⟨spec', hspec', -⟩ := bind_eq_ok hvalid
    obtain ⟨fields, hfields, -⟩ := toObject_of_transcode hspec'
    refine ⟨hinput, hmerge.symm, fields, specObject_of_toObject hfields, ?_⟩
    exact specObject_of_toObject (toObject_of_sameObject hfields hspec)
  rcases runPlan_cases h with
    ⟨hs, hdone⟩ | ⟨_, -, -, -, hnot⟩ | ⟨_, -, prepare, change, a, hplan, hprep, -, hs'⟩
  · obtain ⟨⟨o, unchanged⟩, hadmits, hplan⟩ := bind_eq_ok (hdone object rfl)
    cases unchanged with
    | false => cases hplan
    | true =>
      obtain ⟨row, hrow, rfl, hunchanged⟩ := hread hadmits
      obtain ⟨hinput, hmerge, hspec⟩ := hunchanged rfl
      refine ⟨row, ⟨hmerge, hspec, ?_⟩, ⟨row, hrow, rfl⟩, .inr ⟨hs, hrow⟩⟩
      have hname : row.stripped.metadata.name = input.name := congrArg InputMeta.name hinput
      rw [hinput, hname, toInputMeta_stripped_of_eq hinput]
  · exact absurd rfl (hnot object)
  · obtain ⟨⟨o, unchanged⟩, hadmits, hplan⟩ := bind_eq_ok hplan
    cases unchanged with
    | true => cases hplan
    | false =>
      cases hplan
      obtain ⟨spec', hspec, hprep⟩ := bind_eq_ok hprep
      cases hprep
      obtain ⟨fields, hfields, hfields'⟩ := toObject_of_transcode hspec
      obtain ⟨old, hold, rfl, -⟩ := hread hadmits
      refine ⟨(updatedObject old.stripped input spec' (some merge) s.nextVersion).stripped,
        ⟨rfl, ⟨fields, specObject_of_toObject hfields, specObject_of_toObject hfields'⟩, ?_⟩,
        ⟨old, hold, rfl⟩, .inl ?_⟩
      · rw [ResourceObject.stripped_stripped]
        rfl
      · rw [hs']
        rfl

/-- The root's own row of the name, if there is one, carries that name. -/
def OwnRowNamed (d : Definitions V S T) (name : String) : Prop :=
  ∀ row, d.store.objects[name]? = some row → row.metadata.name = name

/-- **A successful write leaves the row it was given.** -/
theorem writeLocal_ok {d d' : Definitions V S T} (hname : input.name = name)
    (h : writeLocal r d createdAt name input spec merge = (d', .ok object)) :
    d'.replicas = d.replicas ∧
      (∀ other, other ≠ name → d'.store.objects[other]? = d.store.objects[other]?) ∧
      ∃ row, RowWritten r.K input spec merge row.stripped ∧ d'.store.objects[name]? = some row ∧
        (OwnRowNamed d name → row.metadata.name = name) := by
  subst hname
  obtain ⟨hd, hout⟩ := Prod.mk.inj h
  subst hd
  refine ⟨rfl, ?_⟩
  have hinsert : ∀ row, ∀ objects,
      objects = d.store.objects.insert input.name row →
      (∀ other, other ≠ input.name → objects[other]? = d.store.objects[other]?) ∧
        objects[input.name]? = some row := by
    intro row objects hobjects
    subst hobjects
    refine ⟨fun other hother => ?_, by simp⟩
    simp [Std.ExtTreeMap.getElem?_insert, hother.symm]
  cases hrow : d.store.objects[input.name]? with
  | none =>
    rcases hw : createTypedWithMerge r.stream createdAt d.store input spec (some merge) with ⟨s', o⟩
    simp only [hrow, hw] at hout ⊢
    subst hout
    obtain ⟨row, hwritten, hnamed, hobjects⟩ := create_ok hw
    obtain ⟨hother, hself⟩ := hinsert row _ hobjects
    exact ⟨hother, row, hwritten, hself, fun _ => hnamed⟩
  | some existing =>
    rcases hw : updateTypedWithMerge r.stream d.store input existing.metadata.resourceVersion spec
      (some merge) with ⟨s', o⟩
    simp only [hrow, hw] at hout ⊢
    subst hout
    obtain ⟨row, hwritten, ⟨old, hold, hname⟩, hobjects | ⟨hs, hself⟩⟩ := update_ok hw
    · obtain ⟨hother, hself⟩ := hinsert row _ hobjects
      exact ⟨hother, row, hwritten, hself, fun hnamed => hname.trans (hnamed old hold)⟩
    · subst hs
      exact ⟨fun _ _ => rfl, row, hwritten, hself, fun hnamed => hnamed row hself⟩

/-- A failed write changes no row. -/
theorem writeLocal_failed {d d' : Definitions V S T} {out : Outcome (ResourceObject V S T)}
    (h : writeLocal r d createdAt name input spec merge = (d', out)) (hout : ∀ o, out ≠ .ok o) :
    d'.replicas = d.replicas ∧ d'.store.objects = d.store.objects := by
  obtain ⟨hd, hout'⟩ := Prod.mk.inj h
  subst hd
  refine ⟨rfl, ?_⟩
  have hplan : ∀ {plan : Except ResourceError (Plan V S T (ResourceObject V S T))},
      (runPlan r.stream d.store plan).2 = out →
      (runPlan r.stream d.store plan).1.objects = d.store.objects := by
    intro plan hrun
    rcases hp : runPlan r.stream d.store plan with ⟨s', o⟩
    rw [hp] at hrun
    subst hrun
    rcases runPlan_cases hp with ⟨rfl, -⟩ | ⟨_, -, -, rfl, -⟩ | ⟨_, -, _, _, a, -, -, hok, -⟩
    · rfl
    · rfl
    · exact absurd hok (hout a)
  cases hrow : d.store.objects[name]? with
  | none | some =>
    simp only [hrow] at hout' ⊢
    exact hplan hout'

end Flotilla.Definition
