import Flotilla.Status.Reconcile

/-!
# What a pass may ask for

The rules of the reconciler, read backwards: a patch that a pass returns together
with the facts about the status and the world under which its rule speaks.
Everything proved about passes starts from here.

* `WorkMove` : the patches that move one work item.
* `Pass` : the patches of a pass, before a landing is reported with them.
* `pass_of_reconcile`, `reconcileInternal_patch` : every patch of a pass is one of
  these, or reports a landing around one.
-/

namespace Flotilla.Status

open Lib

/-- The phases in which a work item has, or waits for, a vessel. -/
def WorkPhase.isAboard : WorkPhase → Bool
  | .ready | .launching | .running | .stalled | .interrupted => true
  | .pending | .complete | .failed | .cancelled | .abandoned => false

/-- Members of the crew of a work item that are in a phase. -/
def ConvoyStatus.anyCrew (s : ConvoyStatus) (work : String) (phase : CrewWorkPhase) : Bool :=
  s.crewWork[work]?.any fun crew => crew.toList.any fun member => member.2.phase = phase

/-- The crew of a work item is there and all of it is done. -/
def ConvoyStatus.crewDone (s : ConvoyStatus) (work : String) : Bool :=
  s.crewWork[work]?.any fun crew =>
    !crew.isEmpty && crew.toList.all fun member => member.2.phase = .done

/-- The patches that move the work item `work`, which is in `state`. -/
inductive WorkMove (w : World) (s : ConvoyStatus) (work : String) (state : WorkState) :
    ConvoyStatusPatch → Prop
  | lost {vessel : Vessel} (roles : BTreeSet String) (hvessel : w.vesselOf work = some vessel)
      (hlost : vessel.phase = some .lost) (hlive : state.phase.isTerminal = false)
      (hnew : ¬ (state.phase = .interrupted ∧ state.message = some vessel.lostMessage)) :
      WorkMove w s work state (.workInterrupted work roles vessel.lostMessage)
  | failed {vessel : Vessel} (hvessel : w.vesselOf work = some vessel)
      (hfailed : vessel.phase = some .failed) (hensured : w.convoy.isEnsured = false)
      (haboard : state.phase.isAboard = true) :
      WorkMove w s work state (.markWorkFailed work w.now vessel.failureMessage)
  | retry {vessel : Vessel} (retry : ControllerRetry) (hvessel : w.vesselOf work = some vessel)
      (hfailed : vessel.phase = some .failed) (hensured : w.convoy.isEnsured = true)
      (haboard : state.phase.isAboard = true)
      (hnew : ¬ (state.provisioningRetry.isSome ∧ state.message = some vessel.failureMessage)) :
      WorkMove w s work state (.workProvisioningRetry work retry vessel.failureMessage)
  | launch {vessel : Vessel} (hvessel : w.vesselOf work = some vessel)
      (hready : vessel.phase = some .ready) (hphase : state.phase = .ready) :
      WorkMove w s work state (.workLaunching work w.now (placementStatus vessel))
  | run {vessel : Vessel} (roles : BTreeSet String) (hvessel : w.vesselOf work = some vessel)
      (hready : vessel.phase = some .ready)
      (hphase : state.phase = .launching ∨ state.phase = .interrupted) :
      WorkMove w s work state (.workRunning work w.now roles)
  | interrupt {vessel : Vessel} (roles : BTreeSet String) (message : String)
      (hvessel : w.vesselOf work = some vessel) (hinterrupted : vessel.phase = some .interrupted)
      (hstays : vessel.deletionTimestamp = none)
      (hphase : state.phase = .running ∨ state.phase = .stalled) :
      WorkMove w s work state (.workInterrupted work roles message)
  | unobserved (message : Option String) (hvessel : w.vesselOf work = none)
      (hensured : w.convoy.isEnsured = true) (hphase : state.phase = .running) :
      WorkMove w s work state (.rollUpWork work .stalled w.now message)
  | reserve (message : String) (hvessel : w.vesselOf work = none)
      (hensured : w.convoy.isEnsured = true) (hphase : state.phase = .interrupted)
      (hdue : (state.provisioningRetry.any fun retry => retry.nextAttemptAt.any (w.now < ·)) =
        false) :
      WorkMove w s work state
        (.workProvisioningRetry work (.retryable state.provisioningRetry w.now) message)
  | crewFailed (phase : WorkPhase) (message : Option String)
      (hcrew : s.anyCrew work .failed = true)
      (hphase : phase = if w.convoy.isEnsured then .stalled else .failed)
      (hnew : state.phase ≠ phase) :
      WorkMove w s work state (.rollUpWork work phase w.now message)
  | rollUp (next : WorkPhase) (hcrew : s.anyCrew work .failed = false)
      (hpresent : ¬ (w.convoy.isEnsured = true ∧ state.phase = .stalled ∧ w.vesselOf work = none))
      (hnext : nextWorkPhase state.phase (s.crewDone work) (s.anyCrew work .stalled) =
        some next) :
      WorkMove w s work state (.rollUpWork work next w.now none)

/-- The patches of a pass over a status, with what holds when it asks for them. -/
inductive Pass (w : World) (s : ConvoyStatus) : ConvoyStatusPatch → Prop
  | observe {resource : String} {vessel : Vessel} {name : String}
      {observation : EnvironmentRuntimeObservation} (hvessel : w.vessels[resource]? = some vessel)
      (hunseen : unseenObservation s vessel = some (name, observation)) :
      Pass w s (.observeEnvironment name observation)
  | failInit (message : String) (hlive : s.phase.isTerminal = false) :
      Pass w s (.failInit .failed message w.now)
  | bootstrap {template : WorkflowTemplate} (snapshot : WorkflowSnapshot)
      (workflows : BTreeMap String String) (hlive : s.phase.isTerminal = false)
      (href : s.observedWorkflowRef = none) :
      Pass w s (.bootstrap snapshot w.convoy.workflowRef workflows
        (.ofList (template.spec.vessels.map fun vessel =>
          (vessel.name, { phase := .pending })) compare)
        (.ofList (template.spec.vessels.map fun vessel =>
          (vessel.name, freshCrew vessel.crew)) compare)
        w.convoy.promises .pending none)
  | backfill {snapshot : WorkflowSnapshot} {lacking : List VesselRequirement}
      (overrides : BTreeSet String) (hlive : s.phase.isTerminal = false)
      (hsnapshot : s.workflowSnapshot = some snapshot)
      (hlacking : lacking = snapshot.vessels.filter fun vessel => !(missingCrew s vessel).isEmpty)
      (hsome : lacking ≠ []) :
      Pass w s (.backfillCrewWork
        (.ofList (lacking.map fun vessel => (vessel.name, missingCrew s vessel)) compare) overrides)
  | failConvoy (cancelled : BTreeMap String DateTime) (message : Option String)
      (hlive : s.phase.isTerminal = false) :
      Pass w s (.failConvoy cancelled w.now message)
  | work {work : String} {state : WorkState} {patch : ConvoyStatusPatch}
      (hlive : s.phase.isTerminal = false) (hstate : s.work[work]? = some state)
      (hunfailed : state.phase ≠ .failed) (hmove : WorkMove w s work state patch) : Pass w s patch
  | ready {snapshot : WorkflowSnapshot} {ready : BTreeMap String DateTime}
      (hlive : s.phase.isTerminal = false)
      (hready : ready = .ofList ((snapshot.vessels.filter (becomesReady s)).map fun vessel =>
        (vessel.name, w.now)) compare)
      (hsome : ready.isEmpty = false) :
      Pass w s (.advanceWorkToReady ready)
  | settle {exitDisposition : String} (mismatches : List TargetMismatch)
      (hphase : s.phase = .landing) (hcomplete : s.allComplete = true) :
      Pass w s (.settle w.conditions.settlementEvidence exitDisposition mismatches w.now)
  | interrupted (hlive : s.phase.isTerminal = false) (hsome : s.anyInterrupted = true)
      (hphase : s.phase ≠ .interrupted) : Pass w s (.rollUpPhase .interrupted none none)
  | resumed (hnone : s.anyInterrupted = false) (hphase : s.phase = .interrupted) :
      Pass w s (.rollUpPhase .active none none)
  | started (hnone : s.anyInterrupted = false) (hphase : s.phase = .pending) :
      Pass w s (.rollUpPhase .active (some w.now) none)

/-! ### The vessel rules -/

section Vessels

variable {texts : Texts} {w : World} {s : ConvoyStatus} {requirement : VesselRequirement}
  {state : WorkState} {actuations : List Actuation} {outcome : InternalReconcileOutcome}
  {patch : ConvoyStatusPatch}

theorem createVesselOutcome_patch {vessel : String}
    (h : createVesselOutcome texts w s vessel = some outcome) : outcome.patch = none := by
  simp only [createVesselOutcome, Option.bind_eq_bind, Option.bind_eq_some_iff, Option.pure_def,
    Option.some.injEq] at h
  obtain ⟨-, -, -, -, -, -, rfl⟩ := h
  rfl

variable {vessel : Vessel}

theorem failedVesselOutcome_move (hvessel : w.vesselOf requirement.name = some vessel)
    (hfailed : vessel.phase = some .failed) (haboard : state.phase.isAboard = true)
    (hpatch : (failedVesselOutcome w state requirement.name vessel actuations).patch = some patch) :
    WorkMove w s requirement.name state patch := by
  unfold failedVesselOutcome at hpatch
  cases hensured : w.convoy.isEnsured with
  | false =>
    rw [hensured, if_pos (by rfl)] at hpatch
    cases hpatch
    exact .failed hvessel hfailed hensured haboard
  | true =>
    rw [hensured, if_neg (by simp)] at hpatch
    cases hretry : state.provisioningRetry with
    | none =>
      rw [hretry] at hpatch
      cases hpatch
      exact .retry _ hvessel hfailed hensured haboard (by simp [hretry])
    | some retry =>
      rw [hretry] at hpatch
      by_cases hmessage : state.message ≠ some vessel.failureMessage
      · simp only [if_pos hmessage] at hpatch
        cases hpatch
        exact .retry _ hvessel hfailed hensured haboard fun hnew => hmessage hnew.2
      · simp only [if_neg hmessage] at hpatch
        cases hpatch

section Outcome

variable (hpatch : outcome.patch = some patch)

include hpatch

theorem transition_patch {p : ConvoyStatusPatch} {after : WorkPhase}
    (h : transition requirement state actuations p after = .error outcome) : patch = p := by
  cases h
  exact (Option.some.inj hpatch).symm

theorem lostVessel_move (hvessel : w.vesselOf requirement.name = some vessel)
    (hlost : vessel.phase = some .lost)
    (h : lostVessel s requirement state actuations vessel = .error outcome) :
    WorkMove w s requirement.name state patch := by
  obtain ⟨hlive, h⟩ := of_ite_else h nofun
  obtain ⟨hnew, h⟩ := of_ite_else h nofun
  rw [transition_patch hpatch h]
  exact .lost _ hvessel hlost (by simpa using hlive) hnew

/-- What every rule does with a vessel that is there: a failed one has its own outcome. -/
theorem presentVessel_move {p : Prop} [Decidable p] {next : VesselFlow}
    (hvessel : w.vesselOf requirement.name = some vessel) (haboard : state.phase.isAboard = true)
    (h : (if vessel.phase = some .failed then
      .error (failedVesselOutcome w state requirement.name vessel actuations)
      else if p then next else .ok actuations) = .error outcome)
    (hnext : p → next = .error outcome → WorkMove w s requirement.name state patch) :
    WorkMove w s requirement.name state patch := by
  split at h
  case isTrue hfailed =>
    cases h
    exact failedVesselOutcome_move hvessel hfailed haboard hpatch
  case isFalse =>
    obtain ⟨hp, h⟩ := of_ite_then h nofun
    exact hnext hp h

theorem awaitVessel_move {goOn : Vessel → VesselFlow} (haboard : state.phase.isAboard = true)
    (hgoOn : ∀ vessel, w.vesselOf requirement.name = some vessel → vessel.phase = some .ready →
      goOn vessel = .error outcome → WorkMove w s requirement.name state patch)
    (h : awaitVessel texts w s requirement state actuations (w.vesselOf requirement.name) goOn =
      .error outcome) : WorkMove w s requirement.name state patch := by
  unfold awaitVessel at h
  cases hvessel : w.vesselOf requirement.name with
  | some vessel =>
    rw [hvessel] at h
    exact presentVessel_move hpatch hvessel haboard h (hgoOn vessel hvessel)
  | none =>
    rw [hvessel] at h
    dsimp only at h
    split at h
    case h_1 created hcreated =>
      rw [createVesselOutcome_patch hcreated] at h
      cases h
    case h_2 => cases h

theorem runningVessel_move (hphase : state.phase = .running ∨ state.phase = .stalled)
    (hstays : (w.vesselOf requirement.name).any (·.occupies) = false)
    (h : runningVessel w requirement state actuations (w.vesselOf requirement.name) =
      .error outcome) : WorkMove w s requirement.name state patch := by
  cases hvessel : w.vesselOf requirement.name with
  | some vessel =>
    rw [hvessel] at h hstays
    have haboard : state.phase.isAboard = true := by rcases hphase with h | h <;> rw [h] <;> rfl
    refine presentVessel_move hpatch hvessel haboard h fun hinterrupted h => ?_
    rw [transition_patch hpatch h]
    refine .interrupt _ _ hvessel hinterrupted ?_ hphase
    simpa [Vessel.occupies, hinterrupted] using hstays
  | none =>
    rw [hvessel] at h
    obtain ⟨hmissing, h⟩ := of_ite_then h nofun
    rw [transition_patch hpatch h]
    exact .unobserved _ hvessel hmissing.1 hmissing.2

theorem interruptedVessel_move (hphase : state.phase = .interrupted)
    (h : interruptedVessel texts w s requirement state actuations (w.vesselOf requirement.name) =
      .error outcome) : WorkMove w s requirement.name state patch := by
  cases hvessel : w.vesselOf requirement.name with
  | some vessel =>
    rw [hvessel] at h
    refine presentVessel_move hpatch hvessel (by rw [hphase]; rfl) h fun hready h => ?_
    rw [transition_patch hpatch h]
    exact .run _ hvessel hready (.inr hphase)
  | none =>
    rw [hvessel] at h
    obtain ⟨hensured, h⟩ := of_ite_else h nofun
    obtain ⟨hdue, h⟩ := of_ite_else h nofun
    have hmove := WorkMove.reserve (s := s)
      (state.message.getD ("vessel " ++ requirement.name ++ " disappeared")) hvessel
      (by simpa using hensured) hphase (by simpa using hdue)
    split at h
    case isTrue =>
      split at h
      case h_1 =>
        cases h
        cases hpatch
        exact hmove
      case h_2 => cases h
    case isFalse =>
      cases h
      cases hpatch
      exact hmove

theorem requirementOutcome_move
    (h : requirementOutcome texts w s actuations requirement = .error outcome) :
    ∃ state, s.work[requirement.name]? = some state ∧
      WorkMove w s requirement.name state patch := by
  unfold requirementOutcome at h
  split at h
  case h_1 => cases h
  case h_2 state hstate =>
    refine ⟨state, hstate, ?_⟩
    dsimp only at h
    split at h
    case h_1 vessel hlost =>
      obtain ⟨hvessel, hlost⟩ := Option.filter_eq_some_iff.mp hlost
      exact lostVessel_move hpatch hvessel (by simpa using hlost) h
    case h_2 =>
      obtain ⟨hstays, h⟩ := of_ite_else h nofun
      -- One case for each phase with a rule; the others let the loop go on.
      split at h
      case h_1 hphase =>
        refine awaitVessel_move hpatch (by rw [hphase]; rfl) (fun vessel hvessel hready h => ?_) h
        rw [transition_patch hpatch h]
        exact .launch hvessel hready hphase
      case h_2 hphase =>
        refine awaitVessel_move hpatch (by rw [hphase]; rfl) (fun vessel hvessel hready h => ?_) h
        rw [transition_patch hpatch h]
        exact .run _ hvessel hready (.inl hphase)
      case h_3 hphase => exact runningVessel_move hpatch (.inl hphase) (by simpa using hstays) h
      case h_4 hphase => exact runningVessel_move hpatch (.inr hphase) (by simpa using hstays) h
      case h_5 hphase => exact interruptedVessel_move hpatch hphase h
      all_goals cases h

end Outcome

end Vessels

variable {patch : ConvoyStatusPatch} {s : ConvoyStatus} {texts : Texts} {w : World}

theorem vesselOutcome_move (hpatch : (vesselOutcome texts w s).patch = some patch) :
    ∃ work state, s.work[work]? = some state ∧ WorkMove w s work state patch := by
  unfold vesselOutcome at hpatch
  split at hpatch
  case h_1 => cases hpatch
  case h_2 snapshot _ =>
    split at hpatch
    case h_1 => cases hpatch
    case h_2 outcome herror =>
      obtain ⟨requirement, -, actuations, h⟩ := exists_of_foldlM_error herror
      obtain ⟨state, hstate, hmove⟩ := requirementOutcome_move hpatch h
      exact ⟨requirement.name, state, hstate, hmove⟩

/-! ### The rules of the workflow -/

section Workflow

variable {texts : Texts} {w : World} {s : ConvoyStatus} {outcome : InternalReconcileOutcome}
  {patch : ConvoyStatusPatch} {state : WorkState} {work : String}

theorem mem_toList_of_work : (work, state) ∈ s.work.toList ↔ s.work[work]? = some state :=
  Std.ExtTreeMap.mem_toList_iff_getElem?_eq_some

section Outcome

variable (hlive : s.phase.isTerminal = false) (hpatch : outcome.patch = some patch)

include hpatch

theorem rollUpWorkItem_move (h : rollUpWorkItem w s work state = some outcome) :
    WorkMove w s work state patch := by
  obtain ⟨hpresent, h⟩ := of_ite_else h nofun
  split at h
  case h_1 => cases h
  case h_2 crew hcrew =>
    obtain ⟨hcrew, hsome⟩ := Option.filter_eq_some_iff.mp hcrew
    obtain ⟨-, h⟩ := of_ite_else h nofun
    split at h
    case h_1 role failed hfailed =>
      generalize hphase :
        (if w.convoy.isEnsured = true then WorkPhase.stalled else .failed) = phase at h
      obtain ⟨hnew, h⟩ := of_ite_then h nofun
      cases h
      cases hpatch
      refine .crewFailed _ _ ?_ hphase.symm hnew
      have hmem := List.mem_of_find?_eq_some hfailed
      have hphase := List.find?_some hfailed
      simp only [ConvoyStatus.anyCrew, hcrew, Option.any_some, List.any_eq_true]
      exact ⟨_, hmem, hphase⟩
    case h_2 hnone =>
      obtain ⟨next, hnext, rfl⟩ := Option.map_eq_some_iff.mp h
      cases hpatch
      refine .rollUp next ?_ hpresent ?_
      · simpa [ConvoyStatus.anyCrew, hcrew] using hnone
      · rw [← hnext]
        simp only [ConvoyStatus.crewDone, ConvoyStatus.anyCrew, hcrew, Option.any_some]
        rw [hsome, Bool.true_and]

theorem rollUpCrewWorkOutcome_move (h : rollUpCrewWorkOutcome w s = some outcome) :
    ∃ work state, s.work[work]? = some state ∧ WorkMove w s work state patch := by
  obtain ⟨item, hmem, hitem⟩ := List.exists_of_findSome?_eq_some h
  exact ⟨item.1, item.2, mem_toList_of_work.mp hmem, rollUpWorkItem_move hpatch hitem⟩

include hlive

theorem advanceReadyOutcome_pass (h : advanceReadyOutcome s w.now = some outcome) :
    Pass w s patch := by
  obtain ⟨snapshot, -, h⟩ := Option.bind_eq_some_iff.mp h
  obtain ⟨hsome, h⟩ := of_ite_else h nofun
  cases h
  cases hpatch
  exact .ready hlive rfl (by simpa using hsome)

theorem rollUpPhaseOutcome_pass (h : rollUpPhaseOutcome w s = some outcome) : Pass w s patch := by
  unfold rollUpPhaseOutcome at h
  split at h
  case h_1 exitDisposition hexit =>
    cases h
    cases hpatch
    obtain ⟨hsettles, -⟩ := of_ite_then hexit nofun
    exact .settle _ hsettles.1 hsettles.2
  case h_2 =>
    split at h
    case isTrue hinterrupted =>
      cases h
      cases hpatch
      exact .interrupted hlive hinterrupted.1 hinterrupted.2
    case isFalse hinterrupted =>
      split at h
      case isTrue hresumed =>
        cases h
        cases hpatch
        exact .resumed (by simpa using hresumed.1) hresumed.2
      case isFalse =>
        obtain ⟨hstarted, h⟩ := of_ite_then h nofun
        cases h
        cases hpatch
        refine .started ?_ hstarted.2
        simpa [hstarted.2] using hinterrupted

theorem backfillCrewWorkOutcome_pass (h : backfillCrewWorkOutcome s = some outcome) :
    Pass w s patch := by
  obtain ⟨snapshot, hsnapshot, h⟩ := Option.bind_eq_some_iff.mp h
  obtain ⟨hsome, h⟩ := of_ite_else h nofun
  cases h
  cases hpatch
  exact .backfill _ hlive hsnapshot rfl hsome

theorem failFastOutcome_pass (h : failFastOutcome s w.now = some outcome) : Pass w s patch := by
  obtain ⟨-, h⟩ := of_ite_else h nofun
  cases h
  cases hpatch
  exact .failConvoy _ _ hlive

end Outcome

/-- Without a failed work item the rule for failed work is silent, and only then. -/
theorem phase_ne_failed_of_failFast (h : failFastOutcome s w.now = none) {work : String}
    {state : WorkState} (hstate : s.work[work]? = some state) : state.phase ≠ .failed := by
  obtain ⟨hnone, -⟩ := of_ite_then h nofun
  rw [List.filter_eq_nil_iff] at hnone
  simpa using hnone _ (mem_toList_of_work.mpr hstate)

theorem workflowOutcome_pass (hlive : s.phase.isTerminal = false)
    (hpatch : (workflowOutcome texts w s).patch = some patch) : Pass w s patch := by
  unfold workflowOutcome at hpatch
  split at hpatch
  case h_1 outcome h =>
    rcases Option.or_eq_some_iff.mp h with h | ⟨-, h⟩
    · exact backfillCrewWorkOutcome_pass hlive hpatch h
    · exact failFastOutcome_pass hlive hpatch h
  case h_2 hnone =>
    have hunfailed := @phase_ne_failed_of_failFast w s (Option.or_eq_none_iff.mp hnone).2
    dsimp only at hpatch
    split at hpatch
    case isTrue =>
      obtain ⟨work, state, hstate, hmove⟩ := vesselOutcome_move hpatch
      exact .work hlive hstate (hunfailed hstate) hmove
    case isFalse hsilent =>
      split at hpatch
      case h_1 outcome h =>
        change outcome.patch = _ at hpatch
        rcases Option.or_eq_some_iff.mp h with h | ⟨-, h⟩
        · rcases Option.or_eq_some_iff.mp h with h | ⟨-, h⟩
          · obtain ⟨work, state, hstate, hmove⟩ := rollUpCrewWorkOutcome_move hpatch h
            exact .work hlive hstate (hunfailed hstate) hmove
          · exact advanceReadyOutcome_pass hlive hpatch h
        · exact rollUpPhaseOutcome_pass hlive hpatch h
      case h_2 =>
        rw [hpatch] at hsilent
        exact absurd rfl hsilent

theorem bootstrapOutcome_pass (hlive : s.phase.isTerminal = false)
    (href : s.observedWorkflowRef = none)
    (hpatch : (bootstrapOutcome texts w).patch = some patch) : Pass w s patch := by
  unfold bootstrapOutcome at hpatch
  split at hpatch
  case h_1 =>
    cases hpatch
    exact .failInit _ hlive
  case h_2 template htemplate =>
    dsimp only at hpatch
    split at hpatch
    case isTrue =>
      cases hpatch
      exact .failInit _ hlive
    case isFalse =>
      split at hpatch
      case h_1 =>
        cases hpatch
        exact .failInit _ hlive
      case h_2 =>
        cases hpatch
        exact .bootstrap _ _ hlive href

end Workflow

/-- **The patches of a pass**, each with the facts its rule asked for. -/
theorem pass_of_reconcile
    (hpatch : (reconcileInternalWithoutLandingEvent texts w s).patch = some patch) :
    Pass w s patch := by
  unfold reconcileInternalWithoutLandingEvent at hpatch
  split at hpatch
  case h_1 name observation hunseen =>
    cases hpatch
    obtain ⟨vessel, hmem, hunseen⟩ := List.exists_of_findSome?_eq_some hunseen
    obtain ⟨entry, hentry, rfl⟩ := List.mem_map.mp hmem
    exact .observe (Std.ExtTreeMap.mem_toList_iff_getElem?_eq_some.mp hentry) hunseen
  case h_2 =>
    split at hpatch
    case isTrue => cases hpatch
    case isFalse hlive =>
      have hlive : s.phase.isTerminal = false := by simpa using hlive
      split at hpatch
      case h_1 href => exact bootstrapOutcome_pass hlive href hpatch
      case h_2 =>
        split at hpatch
        case isTrue =>
          cases hpatch
          exact .failInit _ hlive
        case isFalse => exact workflowOutcome_pass hlive hpatch

/-- The patch of a pass is that of a rule, or it reports a landing around it. -/
theorem reconcileInternal_patch (h : (reconcileInternal texts w s).patch = some patch) :
    Pass w s patch ∨ s.landingEntry.any (!·.eventEmitted) = true ∧
      (patch = .recordLandingEvent none ∨
        ∃ transition, patch = .recordLandingEvent (some transition) ∧ Pass w s transition) := by
  unfold reconcileInternal at h
  split at h
  case h_1 entry hentry =>
    cases h
    obtain ⟨hentry, hunreported⟩ := Option.filter_eq_some_iff.mp hentry
    refine .inr ⟨by rw [hentry]; exact hunreported, ?_⟩
    cases hpatch : (reconcileInternalWithoutLandingEvent texts w s).patch with
    | none => exact .inl rfl
    | some transition => exact .inr ⟨transition, rfl, pass_of_reconcile hpatch⟩
  case h_2 => exact .inl (pass_of_reconcile h)

end Flotilla.Status
