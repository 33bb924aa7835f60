import Flotilla.Status.Pass
import Flotilla.Status.Repeat

/-!
# How a convoy lands

Passes of the reconciler compute a patch from a status they read and apply it
later, between the writes of the crew and of the operators.  The patch that
settles a convoy looks at the promises again when it is applied, but not at the
phase and the work it was computed from; a convoy that was reopened in between
lands all the same.

* `ConvoyStatusPatch.lands` : the patches that may leave a status landed.
* `apply_phase_ne_landed` : no other patch does.
* `Shared`, `Action` : the status all writers share and what they do to it.
* `Unmoved` : a settlement is applied to the phase and the work it was computed
  from.
* `landed_from_landing` : under that condition a convoy becomes landed only from
  landing, with every work item complete and every promise kept or retracted.
-/

namespace Flotilla.Status

open Lib ConvoyStatus ConvoyStatusPatch

/-! ### The phase under a patch -/

namespace ConvoyStatus

variable {names : Spelling} {s : ConvoyStatus}

theorem applyPromiseAt_phase (fuel : Nat) (s : ConvoyStatus) (vessel role : String)
    (operation : PromiseOperation) :
    (applyPromiseAt names fuel s vessel role operation).phase = s.phase := by
  induction fuel generalizing s operation with
  | zero => rfl
  | succ fuel ih =>
    unfold applyPromiseAt
    split
    case isTrue => rfl
    case isFalse =>
      cases operation with
      | declare | retract | verdict => rfl
      | submit id kind source submission =>
        dsimp only
        split
        case h_1 => rfl
        case h_2 =>
          split
          case isFalse => rfl
          case isTrue =>
            rw [discoverSubmitted_phase]
            split
            case isTrue => exact ih _ _
            case isFalse => rfl

variable (vessel role : String)

theorem promise_phase (operation : PromiseOperation) :
    (s.promise names vessel role operation).phase = s.phase := by
  unfold promise
  split
  case isTrue => exact applyPromiseAt_phase 2 s vessel role operation
  case isFalse => rfl

theorem discoverSubjects_phase (subjects : List (Subject × Relationship))
    (source : SubjectDiscoverySource) (at_ : DateTime) :
    (s.discoverSubjects subjects source at_).phase = s.phase :=
  List.foldlRecOn (motive := fun t : ConvoyStatus => t.phase = s.phase) subjects _ rfl
    fun _ h _ _ => (discoverSubject_phase _ _ _ _).trans h

theorem clearPendingBriefFor_phase : (s.clearPendingBriefFor vessel role).phase = s.phase := by
  unfold clearPendingBriefFor
  split <;> rfl

theorem clearStallForCrew_phase : (s.clearStallForCrew vessel role).phase = s.phase := by
  unfold clearStallForCrew
  split <;> rfl

theorem enterLanding_ne_landed (h : s.phase ≠ .landed) (at_ : DateTime) :
    (s.enterLandingIfCompletionClaimsSettled at_).phase ≠ .landed := by
  unfold enterLandingIfCompletionClaimsSettled
  split
  case isTrue => exact ConvoyPhase.noConfusion
  case isFalse => exact h

/-- A body that refuses without a change, or goes on and does not end landed. -/
theorem refuseIf_ne_landed {c : Prop} [Decidable c] {f : Unit → Flow} (h : s.phase ≠ .landed)
    (hf : (f ()).status.phase ≠ .landed) : (Flow.status (refuseIf c s >>= f)).phase ≠ .landed := by
  rw [Flow.status_refuseIf]
  split
  case isTrue => exact h
  case isFalse => exact hf

theorem resumeCrewWork_ne_landed (h : s.phase ≠ .landed) {intent : ResumeIntent}
    {vessel role prompt : String} {resumedAt : DateTime} {briefId : Option String} :
    (s.resumeCrewWork intent vessel role resumedAt prompt briefId).status.phase ≠ .landed := by
  refine refuseIf_ne_landed h ?_
  change (clearPendingBriefFor _ vessel role).phase ≠ _
  rw [clearPendingBriefFor_phase]
  exact ConvoyPhase.noConfusion

/-- A guarded body that does not end landed leaves the status unlanded. -/
theorem guarded_ne_landed {exempt : Bool} {body : ConvoyStatus → Flow} (h : s.phase ≠ .landed)
    (hbody : (body s).status.phase ≠ .landed) : (s.guarded exempt body).phase ≠ .landed := by
  unfold guarded
  split
  case isTrue => exact h
  case isFalse =>
    cases hflow : body s with
    | error returned =>
      rw [hflow] at hbody
      exact hbody
    | ok reached =>
      rw [hflow] at hbody
      rw [(settled_clearTerminalStall reached).phase]
      exact hbody

theorem handoffCrewWork_ne_landed (h : s.phase ≠ .landed)
    {vessel sender target message : String} {handedOffAt : DateTime} :
    (s.handoffCrewWork vessel sender target handedOffAt message).status.phase ≠ .landed := by
  simp only [handoffCrewWork]
  generalize hcrew : (modifyWork _ vessel _).crewWork[vessel]? = crew
  cases crew with
  | none => exact (handed_phase ..).trans_ne h
  | some crew =>
    change (ite _ _ _ : ConvoyStatus).phase ≠ _
    split
    case isTrue =>
      rw [clearPendingBriefFor_phase]
      exact (handed_phase ..).trans_ne h
    case isFalse => exact (handed_phase ..).trans_ne h

end ConvoyStatus

namespace ConvoyStatusPatch

variable {names : Spelling} {s : ConvoyStatus}

/-- The patch may leave a status landed: it settles, or it writes a phase it was given. -/
def lands : ConvoyStatusPatch → Bool
  | .settle .. => true
  | .bootstrap _ _ _ _ _ _ phase _ | .failInit phase _ _ | .rollUpPhase phase _ _ =>
    phase = .landed
  | .restoreTurnActivation _ _ _ previous => previous.phase = .landed
  | .recordLandingEvent (some transition) => transition.lands
  | _ => false

/-- The body of a patch that does not land. -/
theorem body_ne_landed (h : s.phase ≠ .landed) {patch : ConvoyStatusPatch}
    (hlands : patch.lands = false) : (patch.body names s).status.phase ≠ .landed := by
  cases patch with
  | promise => exact (promise_phase ..).trans_ne h
  | observePromise => exact (applyPromiseAt_phase ..).trans_ne h
  | discoverSubjects => exact (discoverSubjects_phase ..).trans_ne h
  | restoreTurnActivation vessel role activated previous =>
    refine refuseIf_ne_landed h ?_
    change (ite _ _ _ : ConvoyPhase) ≠ _
    split
    case isTrue => simpa [lands] using hlands
    case isFalse => exact h
  | bootstrap _ _ _ _ _ _ phase =>
    change phase ≠ _
    simpa [lands] using hlands
  | failInit phase message finishedAt =>
    change (s.failInit phase message finishedAt).phase ≠ _
    unfold ConvoyStatus.failInit
    split <;> simpa [lands, clearOperatorPendingBrief] using hlands
  | rollUpPhase phase startedAt finishedAt =>
    change (s.rollUpPhase phase startedAt finishedAt).phase ≠ _
    unfold ConvoyStatus.rollUpPhase
    dsimp only
    split <;> simpa [lands, clearOperatorPendingBrief] using hlands
  | settle => cases hlands
  | failConvoy => exact ConvoyPhase.noConfusion
  | recordLandingEvent transition =>
    cases transition with
    | none =>
      exact h
    | some transition =>
      exact guarded_ne_landed h (body_ne_landed h hlands)
  | observeTurnHookHealth reason observedAt =>
    change (s.observeTurnHookHealth reason observedAt).phase ≠ _
    unfold ConvoyStatus.observeTurnHookHealth
    split <;> exact h
  | acknowledgeSupervisorTurn messageId =>
    change (s.acknowledgeSupervisorTurn messageId).phase ≠ _
    unfold ConvoyStatus.acknowledgeSupervisorTurn
    dsimp only
    split <;> exact h
  | observeQueuedTurnDeliveries =>
    exact (settled_observeQueuedTurnDeliveries ..).phase.trans_ne h
  | workProvisioningRetry work =>
    exact guarded_ne_landed h h
  | forceWorkCompleted work finishedAt =>
    exact refuseIf_ne_landed h (enterLanding_ne_landed (s := s.modifyWork work _) h finishedAt)
  | markWorkFailed | markWorkCancelled => exact refuseIf_ne_landed h h
  | markConvoyAbandoned | recordTurnDelivery =>
    exact refuseIf_ne_landed h ConvoyPhase.noConfusion
  | deriveCrewDone vessel role at_ engine =>
    refine refuseIf_ne_landed h (refuseIf_ne_landed h ?_)
    cases s.crewAt vessel role with
    | none => exact h
    | some state =>
      rw [Flow.status_okOr_some, Flow.status_refuseIf]
      split
      case isTrue =>
        split
        case isTrue => exact enterLanding_ne_landed h at_
        case isFalse => exact h
      case isFalse =>
        refine enterLanding_ne_landed ?_ at_
        rw [clearStallForCrew_phase]
        exact h
  | markCrewCompleted _ _ finishedAt =>
    refine refuseIf_ne_landed h (enterLanding_ne_landed ?_ finishedAt)
    rw [clearStallForCrew_phase]
    exact h
  | markCrewFailed vessel role finishedAt message =>
    change (s.markCrewFailed vessel role finishedAt message).phase ≠ _
    unfold ConvoyStatus.markCrewFailed
    rw [clearStallForCrew_phase, clearPendingBriefFor_phase]
    exact h
  | markCrewStalled => exact refuseIf_ne_landed h (refuseIf_ne_landed h h)
  | handoffCrewWork => exact handoffCrewWork_ne_landed h
  | resumeCrewWork => exact resumeCrewWork_ne_landed h
  | beginMessageFollowUp vessel role =>
    refine refuseIf_ne_landed h (guarded_ne_landed h ?_)
    exact resumeCrewWork_ne_landed (s := s.modifyCrew vessel role _) h
  | _ => exact h

variable {patch : ConvoyStatusPatch}

/-- **No other patch lands a convoy.** -/
theorem apply_phase_ne_landed (names : Spelling) (h : s.phase ≠ .landed)
    (hlands : patch.lands = false) : (patch.apply names s).phase ≠ .landed :=
  guarded_ne_landed h (body_ne_landed h hlands)

/-- The patch, or the transition inside a landing event, settles the convoy. -/
def settles : ConvoyStatusPatch → Bool
  | .settle .. => true
  | .recordLandingEvent (some transition) => transition.settles
  | _ => false

/-- What a settlement asks of the status it is applied to. -/
theorem settle_promises {evidence : Option Stored} {disposition : String}
    {mismatches : List TargetMismatch} {finishedAt : DateTime} (h : s.phase ≠ .landed)
    (hlanded : ((settle evidence disposition mismatches finishedAt).apply names s).phase =
      .landed) : ∀ p ∈ s.allPromises, p.state.terminal = true := by
  by_contra hopen
  have hany : (s.allPromises.any (!·.state.terminal)) = true := by
    simpa using hopen
  refine guarded_ne_landed h ?_ hlanded
  change (s.settle evidence disposition mismatches finishedAt).status.phase ≠ _
  unfold ConvoyStatus.settle
  rw [Flow.status_refuseIf, if_pos hany]
  exact h

/-- A landing event around a patch that does not land the convoy does not land it either. -/
theorem settles_of_apply_landed (hphase : s.phase ≠ .landed)
    (hlands : patch.settles = true ∨ patch.lands = false)
    (hlanded : (patch.apply names s).phase = .landed) : patch.settles = true := by
  rcases hlands with hsettles | hlands
  · exact hsettles
  · exact absurd hlanded (apply_phase_ne_landed names hphase hlands)

/-- A landing event leaves the phase of the transition it is applied with. -/
theorem landingEvent_phase (transition : ConvoyStatusPatch) :
    ((recordLandingEvent (some transition)).apply names s).phase =
      (transition.apply names s).phase := by
  rw [apply_landingEvent, (settled_clearTerminalStall _).phase]
  rfl

end ConvoyStatusPatch

/-! ### Writers that share a status -/

/-- A patch that was computed from the status that was read. -/
structure Computed where
  read : ConvoyStatus
  patch : ConvoyStatusPatch

/-- The stored status, and what its writers have computed and may still apply. -/
structure Shared where
  status : ConvoyStatus
  computed : List Computed

/-- Patches that are computed from a status that was read: those of a pass, and the one that takes
back the activation of a turn. -/
def ConvoyStatusPatch.isComputed : ConvoyStatusPatch → Bool
  | .bootstrap .. | .failInit .. | .rollUpPhase .. | .settle .. | .recordLandingEvent _
  | .restoreTurnActivation .. => true
  | _ => false

inductive Action where
  /-- A pass reads the status and computes its patch. -/
  | pass (w : World) (patch : ConvoyStatusPatch)
  /-- The delivery of a turn reads the status it is going to activate. -/
  | activate (vessel role : String) (activated : ConvoyStatus)
  /-- A computed patch is applied to whatever the status now is; a writer whose conflict or lost
  answer makes it try again does so more than once. -/
  | write (computed : Computed)
  /-- The crew, an operator or another controller applies a patch. -/
  | patch (patch : ConvoyStatusPatch)

namespace Shared

variable (texts : Texts)

def Enabled (st : Shared) : Action → Prop
  | .pass w patch => (reconcileInternal texts w st.status).patch = some patch
  | .activate .. => True
  | .write computed => computed ∈ st.computed
  | .patch patch => patch.isComputed = false

def next (st : Shared) : Action → Shared
  | .pass _ patch => { st with computed := ⟨st.status, patch⟩ :: st.computed }
  | .activate vessel role activated =>
    { st with
      computed :=
        ⟨st.status, .restoreTurnActivation vessel role activated st.status⟩ :: st.computed }
  | .write computed => { st with status := computed.patch.apply texts.toSpelling st.status }
  | .patch patch => { st with status := patch.apply texts.toSpelling st.status }

/-- The shared states of the runs that start with a status and nothing computed. -/
inductive Reachable (s : ConvoyStatus) : Shared → Prop
  | start : Reachable s ⟨s, []⟩
  | step {st : Shared} (action : Action) (hreach : Reachable s st)
      (henabled : st.Enabled texts action) : Reachable s (st.next texts action)

/-- A settlement is applied to the phase and the work it was computed from. -/
def Unmoved (st : Shared) : Action → Prop
  | .write computed => computed.patch.settles = true →
    st.status.phase = computed.read.phase ∧ st.status.work = computed.read.work
  | _ => True

/-- Where a computed patch comes from. -/
def Sourced (computed : Computed) : Prop :=
  (∃ w, (reconcileInternal texts w computed.read).patch = some computed.patch) ∨
    ∃ vessel role activated,
      computed.patch = .restoreTurnActivation vessel role activated computed.read

/-- What every computed patch of a run keeps: where it comes from, and that a terminal status that
was read has stayed terminal. -/
def Sound (st : Shared) : Prop :=
  ∀ computed ∈ st.computed, Sourced texts computed ∧
    (computed.read.phase.isTerminal = true → st.status.phase.isTerminal = true)

end Shared

variable {patch : ConvoyStatusPatch} {s : ConvoyStatus} {w : World}

theorem ConvoyStatusPatch.apply_isTerminal (names : Spelling) (h : s.phase.isTerminal = true)
    (patch : ConvoyStatusPatch) : (patch.apply names s).phase.isTerminal = true := by
  rcases apply_terminal names h patch with hsettled | ⟨-, -, habandoned⟩
  · rw [hsettled.phase]
    exact h
  · rw [habandoned]
    rfl

namespace Shared

variable {texts : Texts} {s : ConvoyStatus} {st : Shared}

theorem Sound.next (h : st.Sound texts) {action : Action} (henabled : st.Enabled texts action) :
    (st.next texts action).Sound texts := by
  cases action with
  | pass w patch =>
    exact List.forall_mem_cons.mpr ⟨⟨.inl ⟨w, henabled⟩, id⟩, h⟩
  | activate vessel role activated =>
    exact List.forall_mem_cons.mpr ⟨⟨.inr ⟨vessel, role, activated, rfl⟩, id⟩, h⟩
  | write written =>
    intro computed hmem
    obtain ⟨hsourced, hterminal⟩ := h computed hmem
    exact ⟨hsourced, fun hread =>
      apply_isTerminal texts.toSpelling (hterminal hread) written.patch⟩
  | patch patch =>
    intro computed hmem
    obtain ⟨hsourced, hterminal⟩ := h computed hmem
    exact ⟨hsourced, fun hread =>
      apply_isTerminal texts.toSpelling (hterminal hread) patch⟩

theorem Reachable.sound (h : Reachable texts s st) : st.Sound texts := by
  induction h with
  | start => exact fun _ hmem => absurd hmem List.not_mem_nil
  | step _ _ henabled ih => exact ih.next henabled

end Shared

/-- The patches of a pass land a convoy only by settling it. -/
theorem Pass.settles_or (h : Pass w s patch) : patch.settles = true ∨ patch.lands = false := by
  cases h with
  | settle => exact .inl rfl
  | work _ _ _ hmove => cases hmove <;> exact .inr rfl
  | observe | failInit | bootstrap | backfill | failConvoy | ready | interrupted | resumed
  | started => exact .inr rfl

/-- A pass settles only a convoy that is landing and complete. -/
theorem Pass.of_settles (h : Pass w s patch) (hsettles : patch.settles = true) :
    (∃ evidence disposition mismatches finishedAt,
        patch = .settle evidence disposition mismatches finishedAt) ∧
      s.phase = .landing ∧ s.allComplete = true := by
  cases h with
  | settle _ hphase hcomplete => exact ⟨⟨_, _, _, _, rfl⟩, hphase, hcomplete⟩
  | work _ _ _ hmove => cases hmove <;> cases hsettles
  | observe | failInit | bootstrap | backfill | failConvoy | ready | interrupted | resumed
  | started => cases hsettles

section Reconcile

variable {texts : Texts} {w : World} {s : ConvoyStatus} {patch : ConvoyStatusPatch}

theorem reconcileInternal_settles_or (h : (reconcileInternal texts w s).patch = some patch) :
    patch.settles = true ∨ patch.lands = false := by
  rcases reconcileInternal_patch h with hpass | ⟨-, rfl | ⟨transition, rfl, hpass⟩⟩
  · exact hpass.settles_or
  · exact .inr rfl
  · exact hpass.settles_or

/-- A pass that settles read a convoy that is landing and complete, and its patch asks for the
promises of the status it is applied to. -/
theorem reconcileInternal_of_settles (h : (reconcileInternal texts w s).patch = some patch)
    (hsettles : patch.settles = true) :
    s.phase = .landing ∧ s.allComplete = true ∧
      ∀ t : ConvoyStatus, t.phase ≠ .landed →
        (patch.apply texts.toSpelling t).phase = .landed →
          ∀ p ∈ t.allPromises, p.state.terminal = true := by
  rcases reconcileInternal_patch h with hpass | ⟨-, rfl | ⟨transition, rfl, hpass⟩⟩
  · obtain ⟨⟨_, _, _, _, rfl⟩, hphase, hcomplete⟩ := hpass.of_settles hsettles
    exact ⟨hphase, hcomplete, fun t ht hlanded => settle_promises ht hlanded⟩
  · cases hsettles
  · obtain ⟨⟨_, _, _, _, rfl⟩, hphase, hcomplete⟩ := hpass.of_settles hsettles
    refine ⟨hphase, hcomplete, fun t ht hlanded => ?_⟩
    rw [landingEvent_phase] at hlanded
    exact settle_promises ht hlanded

theorem complete_of_allComplete (h : s.allComplete = true) {work : String} {state : WorkState}
    (hstate : s.work[work]? = some state) : state.phase = .complete := by
  simp only [allComplete, Bool.and_eq_true] at h
  simpa using List.all_eq_true.mp h.1.2 _ (mem_toList_of_work.mpr hstate)

end Reconcile

theorem kept_or_retracted {state : PromiseState} (h : state.terminal = true) :
    state = .kept ∨ state = .retracted := by
  cases state with
  | kept => exact .inl rfl
  | retracted => exact .inr rfl
  | isOpen | submitted => cases h

/-- A patch that the crew or an operator applies does not land a convoy. -/
theorem lands_of_not_computed (h : patch.isComputed = false) : patch.lands = false := by
  cases patch <;> first | rfl | cases h

/-- **A convoy lands only from landing.**  In every run of passes, turn deliveries and patches of
the crew and the operators, whatever was read before what: a step that makes the convoy landed is
taken from landing, when every work item is complete and every promise kept or retracted, if a
settlement is applied to the phase and the work it was computed from. -/
theorem landed_from_landing (texts : Texts) {s : ConvoyStatus} {st : Shared}
    (hreach : Shared.Reachable texts s st) (action : Action) (henabled : st.Enabled texts action)
    (hunmoved : st.Unmoved action) (hbefore : st.status.phase ≠ .landed)
    (hafter : (st.next texts action).status.phase = .landed) :
    st.status.phase = .landing ∧
      (∀ (work : String) (state : WorkState),
        st.status.work[work]? = some state → state.phase = .complete) ∧
      ∀ p ∈ st.status.allPromises, p.state = .kept ∨ p.state = .retracted := by
  cases action with
  | pass w patch => exact absurd hafter hbefore
  | activate vessel role activated => exact absurd hafter hbefore
  | patch patch =>
    exact absurd hafter (apply_phase_ne_landed texts.toSpelling hbefore
      (lands_of_not_computed henabled))
  | write computed =>
    obtain ⟨hsourced, hterminal⟩ := hreach.sound computed henabled
    rcases hsourced with ⟨w, hpatch⟩ | ⟨vessel, role, activated, hpatch⟩
    · have hsettles := settles_of_apply_landed hbefore
        (reconcileInternal_settles_or hpatch) hafter
      obtain ⟨hphase, hcomplete, hpromises⟩ := reconcileInternal_of_settles hpatch hsettles
      obtain ⟨hsamePhase, hsameWork⟩ := hunmoved hsettles
      refine ⟨hsamePhase.trans hphase, fun work state hstate => ?_, fun p hp => ?_⟩
      · rw [hsameWork] at hstate
        exact complete_of_allComplete hcomplete hstate
      · exact kept_or_retracted (hpromises st.status hbefore hafter p hp)
    · -- A status that was read landed is terminal since, and takes back no activation.
      exfalso
      by_cases hread : computed.read.phase = .landed
      · have hstill := hterminal (by rw [hread]; rfl)
        change (computed.patch.apply texts.toSpelling st.status).phase = _ at hafter
        rw [hpatch, apply_of_not_exempt hstill rfl] at hafter
        exact hbefore hafter
      · refine apply_phase_ne_landed texts.toSpelling hbefore ?_ hafter
        rw [hpatch]
        simpa [ConvoyStatusPatch.lands] using hread

/-! ### A convoy that was reopened -/

section Reopened

def plainTexts : Texts where
  resolve := fun _ => none
  subjectFor := fun _ => none
  subjectAddress := fun _ => none
  rfc3339 := toString
  validate := fun _ => []
  debug := fun _ => ""
  vesselPlacements := fun _ => none

/-- A convoy whose exit is a claim, with nothing left but its status. -/
def claimWorld : World where
  convoy :=
    { name := "fix", namespace_ := "crew", annotations := ∅, workflowRef := "solo", inputs := ∅
      placementPolicy := none, repositories := [], adoptedCheckoutRefs := ∅, promises := [] }
  template := none
  vessels := ∅
  checkouts := ∅
  conditions := ⟨some "claim", false, none⟩
  now := 100

/-- Landing: the one work item is complete, its crew done. -/
def landingStatus : ConvoyStatus where
  phase := .landing
  observedWorkflowRef := some "solo"
  work := .ofList [("build", { phase := .complete })] compare
  crewWork := .ofList [("build", .ofList [("dev", { phase := .done })] compare)] compare

def settlement : Computed where
  read := landingStatus
  patch := .settle none "claim" [] 100

/-- A promise is added and taken back while the settlement is under way. -/
def promisedMeanwhile : ConvoyStatus :=
  [ConvoyStatusPatch.observePromise "build" "dev" (.declare "fix" .pr .crew),
    .observePromise "build" "dev" (.retract "fix" "not needed")].foldl
      (fun s patch => patch.apply plainTexts.toSpelling s) landingStatus

/-- A pass reads the status; a promise is added and retracted; then the convoy settles. -/
theorem landed_from_landing_meanwhile :
    promisedMeanwhile.allPromises.map (·.state) = [.retracted] ∧
      promisedMeanwhile.phase = .landing ∧
      (∀ (work : String) (state : WorkState),
        promisedMeanwhile.work[work]? = some state → state.phase = .complete) ∧
      ∀ p ∈ promisedMeanwhile.allPromises, p.state = .kept ∨ p.state = .retracted := by
  have hreach : Shared.Reachable plainTexts landingStatus ⟨promisedMeanwhile, [settlement]⟩ :=
    .step (.patch (.observePromise "build" "dev" (.retract "fix" "not needed")))
      (.step (.patch (.observePromise "build" "dev" (.declare "fix" .pr .crew)))
        (.step (.pass claimWorld settlement.patch) .start (by rfl)) rfl) rfl
  exact ⟨by decide +kernel, landed_from_landing plainTexts hreach (.write settlement)
    (List.mem_singleton_self _) (fun _ => ⟨rfl, rfl⟩) (by decide +kernel) (by decide +kernel)⟩

/-- The crew reopens its work after the pass has read the status; the settlement lands the convoy
from active, with the work running. -/
theorem reopened_convoy_lands :
    ∃ (texts : Texts) (s : ConvoyStatus) (st : Shared) (action : Action),
      Shared.Reachable texts s st ∧ st.Enabled texts action ∧ st.status.phase = .active ∧
      st.status.work["build"]?.map (·.phase) = some .running ∧
      (st.next texts action).status.phase = .landed := by
  refine ⟨plainTexts, landingStatus,
    ⟨(ConvoyStatusPatch.resumeCrewWork .reopen "build" "dev" 101 "again" none).apply
      plainTexts.toSpelling landingStatus, [settlement]⟩, .write settlement, ?_, ?_, ?_, ?_, ?_⟩
  · exact .step (.patch (.resumeCrewWork .reopen "build" "dev" 101 "again" none))
      (.step (.pass claimWorld settlement.patch) .start (by rfl)) rfl
  · exact List.mem_singleton_self _
  · decide +kernel
  · decide +kernel
  · decide +kernel

end Reopened

end Flotilla.Status
