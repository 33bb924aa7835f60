import Flotilla.Convoy.Invariant

/-!
# Retired seats

A seat retires with no open promise and no live duty.  It holds nothing from then
on, unless a promise is declared later that one of its duties was waiting for:
nothing checks a new promise against the duties of retired seats.
-/

namespace Flotilla.Convoy

open Lib Std
open Engine

namespace Rules

variable {w : Work}

/-- The seat owns no open promise and no duty that has not ended. -/
structure HoldsNothing (w : Work) (seat : SeatName) : Prop where
  promises : ∀ (id : PromiseId) (p : PromiseRecord), w.promises[id]? = some p →
    p.owner = seat → p.isOpen = false
  duties : ∀ (id : DutyId) (d : Duty), w.spec.duties[id]? = some d → d.owner = seat →
    liveDuty w id d = false

/-- Every retired seat holds nothing. -/
def RetiredHoldNothing (w : Work) : Prop := ∀ seat ∈ w.retiredSeats, HoldsNothing w seat

/-- The event declares no promise that a duty of a retired seat names. -/
def SparesRetired (w : Work) : Event → Prop
  | .declare promise _ _ => ∀ (id : DutyId) (d : Duty) (promises : BTreeSet PromiseId),
      w.spec.duties[id]? = some d → d.owner ∈ w.retiredSeats → d.scope = .whileOpen promises →
        promise ∉ promises
  | _ => True

theorem liveDuty_eq_true_iff {id : DutyId} {d : Duty} :
    liveDuty w id d = true ↔ match d.scope with
      | .lifetime => id ∉ w.retired
      | .whileOpen promises => ∃ promise ∈ promises, promise ∈ openPromises w := by
  cases hscope : d.scope with
  | lifetime => simp [liveDuty, hscope]
  | whileOpen promises => simp [liveDuty, hscope]

/-- A duty that has ended stays so while no promise opens and no duty is put back. -/
theorem liveDuty_mono {w' : Work} {id : DutyId} {d : Duty}
    (hretired : ∀ id ∈ w.retired, id ∈ w'.retired)
    (hopen : ∀ promises, d.scope = .whileOpen promises → ∀ promise ∈ promises,
      promise ∈ openPromises w' → promise ∈ openPromises w)
    (h : liveDuty w id d = false) : liveDuty w' id d = false := by
  rw [← Bool.not_eq_true, liveDuty_eq_true_iff] at h ⊢
  cases hscope : d.scope with
  | lifetime =>
    simp only [hscope, not_not] at h ⊢
    exact hretired id h
  | whileOpen promises =>
    simp only [hscope] at h ⊢
    rintro ⟨promise, hmem, hp⟩
    exact h ⟨promise, hmem, hopen promises hscope promise hmem hp⟩

theorem openPromises_withPromise {id : PromiseId} {p : PromiseRecord} {other : PromiseId}
    (h : other ∈ openPromises (withPromise w id p)) : other = id ∨ other ∈ openPromises w := by
  rw [mem_openPromises] at h
  obtain ⟨p', hp', hopen⟩ := h
  rw [lookup_withPromise] at hp'
  split_ifs at hp' with heq
  · exact .inl heq.symm
  · exact .inr (mem_openPromises.mpr ⟨p', hp', hopen⟩)

/-- A promise of a seat that is not retired changes, and was open or is named by no duty of a
retired seat. -/
theorem RetiredHoldNothing.withPromise (hw : RetiredHoldNothing w) {id : PromiseId}
    {p : PromiseRecord} (howner : p.owner ∉ w.retiredSeats)
    (hopen : id ∈ openPromises w ∨ SparesRetired w (.declare id p.promise p.owner)) :
    RetiredHoldNothing (withPromise w id p) := by
  intro seat hseat
  refine ⟨?_, ?_⟩
  · intro other p' hp' hp'owner
    rw [lookup_withPromise] at hp'
    split_ifs at hp' with heq
    · cases hp'
      exact absurd (hp'owner ▸ hseat) howner
    · exact (hw seat hseat).promises other p' hp' hp'owner
  · intro duty d hd hdowner
    refine liveDuty_mono (w := w) (fun _ h => h) ?_ ((hw seat hseat).duties duty d hd hdowner)
    intro promises hscope promise hmem hpromise
    rcases openPromises_withPromise hpromise with rfl | hpromise
    · rcases hopen with hopen | hspares
      · exact hopen
      · exact absurd hmem (hspares duty d promises hd (hdowner ▸ hseat) hscope)
    · exact hpromise

/-- **An event that spares the retired seats leaves them holding nothing.** -/
theorem RetiredHoldNothing.moves (hw : RetiredHoldNothing w) {e : Event} {s : State}
    (h : Moves w e s) (hspares : SparesRetired w e) : RetiredHoldNothing s.work := by
  have hlive : ∀ {id : PromiseId} {p : PromiseRecord}, w.promises[id]? = some p →
      p.isOpen = true → p.owner ∉ w.retiredSeats := by
    intro id p hp hopen hretired
    rw [(hw _ hretired).promises id p hp rfl] at hopen
    cases hopen
  cases h with
  | declare _ _ _ howner => exact hw.withPromise howner (.inr hspares)
  | progress hp hopen howner _ =>
    refine hw.withPromise ?_ (.inl (mem_openPromises.mpr ⟨_, hp, hopen⟩))
    rw [howner]
    exact hlive hp hopen
  | reassign hp hopen _ howner =>
    exact hw.withPromise howner (.inl (mem_openPromises.mpr ⟨_, hp, hopen⟩))
  | retireDuty =>
    intro seat hseat
    refine ⟨(hw seat hseat).promises, fun id d hd hdowner => ?_⟩
    exact liveDuty_mono (fun _ h => ExtTreeSet.mem_insert.mpr (.inr h))
      (fun _ _ _ _ h => h) ((hw seat hseat).duties id d hd hdowner)
  | addSeat _ _ | seat _ _ | readmission _ _ =>
    exact fun seat hseat => ⟨(hw seat hseat).promises, (hw seat hseat).duties⟩
  | @retireSeat retiree _ _ hpromises hduties =>
    intro seat hseat
    rcases ExtTreeSet.mem_insert.mp hseat with heq | hseat
    · cases compare_eq_iff_eq.mp heq
      refine ⟨fun id p hp howner => ?_, fun id d hd howner => ?_⟩
      · by_contra hopen
        refine ExtTreeSet.eq_empty_iff_forall_not_mem.mp hpromises id ?_
        rw [seatPromises, Table.mem_keysWhere]
        exact ⟨p, hp, by simpa [howner] using hopen⟩
      · by_contra hlive
        refine ExtTreeSet.eq_empty_iff_forall_not_mem.mp hduties id ?_
        rw [seatDuties, Table.mem_keysWhere]
        refine ⟨d, hd, ?_⟩
        rw [Bool.not_eq_false] at hlive
        exact decide_eq_true ⟨howner, hlive⟩
    · exact ⟨(hw seat hseat).promises, (hw seat hseat).duties⟩
  | rollover _ _ => exact fun seat hseat => absurd hseat ExtTreeSet.not_mem_empty
  | deliver | abandon => exact hw

end Rules

/-! ### In a convoy's own rows -/

/-- The seat owns no open promise and no live duty. -/
structure HoldsNothing (r : ConvoyResource) (seat : SeatName) : Prop where
  promises : ∀ p ∈ r.spec.promises.records, p.owner = seat → p.isOpen = false
  duties : ∀ (id : DutyId) (d : Duty), r.spec.duties[id]? = some d → d.owner = seat →
    liveDuty r.spec r.state.retired id d = false

/-- The edge declares no promise that a duty of a retired seat names. -/
def SparesRetired (r : ConvoyResource) : ConvoyEdge → Prop
  | .declare e => ∀ (id : DutyId) (d : Duty) (promises : BTreeSet PromiseId),
      r.spec.duties[id]? = some d → (∃ s ∈ r.spec.seats.records, s.name = d.owner ∧ s.retired) →
        d.scope = .whileOpen promises → e.promise ∉ promises
  | _ => True

theorem mem_retiredNames {seats : List Seat} {name : SeatName} :
    name ∈ retiredNames seats ↔ ∃ s ∈ seats, s.name = name ∧ s.retired := by
  rw [retiredNames, mem_seatNames]
  simp only [List.mem_filter]
  constructor
  · rintro ⟨s, ⟨hs, hret⟩, hname⟩
    exact ⟨s, hs, hname, hret⟩
  · rintro ⟨s, hs, hname, hret⟩
    exact ⟨s, ⟨hs, hret⟩, hname⟩

theorem sparesRetired_abs {r : ConvoyResource} {e : ConvoyEdge} (h : SparesRetired r e)
    (quota : Quota) (retired : BTreeSet DutyId) (number : U32 → Nat) (world : ConvoyWorld) :
    Rules.SparesRetired (absWork r.spec quota retired) (absEdge number world e) := by
  cases e with
  | declare e =>
    intro id d promises hd howner hscope
    exact h id d promises hd (mem_retiredNames.mp howner) hscope
  | keep e => cases e <;> trivial
  | _ => trivial

/-- **In every run that declares no promise which a duty of a retired seat names, a retired seat
holds nothing.** -/
theorem run_retired_hold_nothing {request : ConvoyRequest} {start r : ConvoyResource}
    {edges : List ConvoyEdge} (hstart : Admitted convoy request start)
    (run : Run convoy SparesRetired start edges r) :
    ∀ s ∈ r.spec.seats.records, s.retired → HoldsNothing r s.name := by
  have hinv : Ruled r ∧ Rules.RetiredHoldNothing (workOf r) := by
    refine run.invariant (P := fun r => Ruled r ∧ Rules.RetiredHoldNothing (workOf r))
      ⟨ruled_admitted hstart, ?_⟩ ?_
    · obtain ⟨name, world, now, version, spec, state, hadmits, -⟩ := hstart
      obtain ⟨-, heq⟩ := named_of_admits hadmits
      cases heq
      intro seat hseat
      rw [workOf, absWork, retiredNames_spec] at hseat
      exact absurd hseat ExtTreeSet.not_mem_empty
    · rintro r e r' ⟨hr, hhold⟩ hspares happlied
      obtain ⟨quota, retired, number, world, hstate, hmoves⟩ := moves_of_applied hr.keyed happlied
      rw [workOf, hstate] at hhold
      have hhold' := hhold.moves hmoves (sparesRetired_abs hspares _ _ _ _)
      rw [work_absState] at hhold'
      exact ⟨ruled_applied hr happlied, hhold'⟩
  obtain ⟨hr, hhold⟩ := hinv
  intro s hs hret
  have hseat := hhold s.name (mem_retiredNames.mpr ⟨s, hs, rfl, hret⟩)
  refine ⟨fun p hp howner => ?_, fun id d hd howner => ?_⟩
  · rw [← isOpen_absPromise]
    exact hseat.promises p.id _ (lookup_of_mem hr.keyed hp) howner
  · rw [liveDuty_eq hr.keyed r.state.quota]
    exact hseat.duties id d hd howner

/-! ### A duty that outlives its seat -/

def scout : SeatName := ⟨"scout", "1"⟩

def sequel : PromiseId := ⟨5, by decide⟩

/-- The scout's duty waits for a promise that is not there yet. -/
def scoutRequest : ConvoyRequest :=
  { leadRequest with
    duties := ExtTreeMap.ofList
      [(0, { owner := scout, scope := .whileOpen (ExtTreeSet.ofList [sequel] compare) })] compare
    seats := leadRequest.seats ++
      [{ role := "scout", seat := "1", parent := some lead, supervisedBy := "fleet" }]
    seatsFit := by decide }

def scoutConvoy : ConvoyResource where
  name := "convoy"
  spec := scoutRequest.spec 0
  state := .opened ∅ ∅
  since := 0
  version := 1

theorem admitted_scout : Admitted convoy scoutRequest scoutConvoy :=
  ⟨"convoy", openWorld, 0, 1, _, _, rfl, rfl⟩

def retireScout : ConvoyEdge := .retireSeat { seat := scout, by_ := lead, authority := "any" }

def declareSequel : ConvoyEdge :=
  .declare { promise := sequel, label := "sequel", kind := "pr", target := "repo", owner := lead }

/-- The scout's convoy after its scout retired. -/
def retiredConvoy : ConvoyResource :=
  scoutConvoy.commit ((convoyEdge retireScout).effect (scoutConvoy.handle openWorld 1)) 2 1

theorem applied_retireScout : Applied convoy scoutConvoy retireScout retiredConvoy := by
  refine ⟨openWorld, 1, 2, _, ?_⟩
  rfl

theorem run_retired_hold_nothing_scout :
    SparesRetired scoutConvoy retireScout ∧
      ∀ s ∈ retiredConvoy.spec.seats.records, s.retired → HoldsNothing retiredConvoy s.name := by
  have run : Run convoy SparesRetired scoutConvoy ([] ++ [retireScout]) retiredConvoy :=
    Run.nil.snoc trivial applied_retireScout
  exact ⟨trivial, run_retired_hold_nothing admitted_scout run⟩

/-- And after the promise was declared that its duty names. -/
def sequelConvoy : ConvoyResource :=
  retiredConvoy.commit ((convoyEdge declareSequel).effect (retiredConvoy.handle openWorld 2)) 3 2

theorem run_retired_holds_duty :
    Admitted convoy scoutRequest scoutConvoy ∧
      Run convoy anywhere scoutConvoy [retireScout, declareSequel] sequelConvoy ∧
      ∃ s ∈ sequelConvoy.spec.seats.records, s.retired ∧ ¬ HoldsNothing sequelConvoy s.name := by
  have happlied : Applied convoy retiredConvoy declareSequel sequelConvoy := by
    refine ⟨openWorld, 2, 3, _, ?_⟩
    rfl
  have run : Run convoy anywhere scoutConvoy (([] ++ [retireScout]) ++ [declareSequel])
      sequelConvoy :=
    (Run.nil.snoc trivial applied_retireScout).snoc trivial happlied
  refine ⟨admitted_scout, run, {
    role := "scout", seat := "1", parent := some lead, supervisedBy := "fleet", retired := true },
    by decide +kernel, rfl, fun hnothing => ?_⟩
  have hended := hnothing.duties 0
    { owner := scout, scope := .whileOpen (ExtTreeSet.ofList [sequel] compare) } rfl rfl
  cases hended

end Flotilla.Convoy
