import Flotilla.Status.LandingEvents
import Flotilla.Status.PromiseRepeat

/-!
# What patches do the second time

The changes that patches make, each made on what it left.  A change of one part
of the status finds that part as it wants it; a loop finds every step done; and
the declarations a bootstrap seeds are all held.

* `modifyWork_again`, `modifyCrew_again`, `enterLanding_again`, … : the parts of a
  status, and the shared endings of patches.
* `merge_merge`, `recordEpisode_again` : observations and episodes.
* `discoverSubjects_idem`, `observeQueuedTurnDeliveries_idem` : the loops.
* `admittedDeclarations_seedPromises`, `bootstrap_idem` : nothing is left to seed.
-/

namespace Flotilla.Status

open Lib Std

/-! ### Parts of a status -/

namespace ConvoyStatus

variable {s : ConvoyStatus} {f : WorkState → WorkState} {role vessel work : String}
  {t : ConvoyStatus}

theorem modifyWork_eq_self (h : ∀ state, s.work[work]? = some state → f state = state) :
    s.modifyWork work f = s := by
  unfold modifyWork
  rw [BTreeMap.modify_eq_self h]

theorem modifyCrew_eq_self {f : CrewWorkState → CrewWorkState}
    (h : ∀ state, s.crewAt vessel role = some state → f state = state) :
    s.modifyCrew vessel role f = s := by
  unfold modifyCrew
  rw [BTreeMap.modify_eq_self]
  refine fun crew hcrew => BTreeMap.modify_eq_self fun state hstate => h state ?_
  unfold crewAt
  rw [hcrew]
  exact hstate

theorem work_modifyWork :
    (s.modifyWork work f).work[work]? = s.work[work]?.map f :=
  ExtTreeMap.getElem?_modify_self

theorem crewAt_modifyCrew (vessel role : String) (f : CrewWorkState → CrewWorkState) :
    (s.modifyCrew vessel role f).crewAt vessel role = (s.crewAt vessel role).map f := by
  unfold modifyCrew crewAt
  rw [ExtTreeMap.getElem?_modify_self]
  cases s.crewWork[vessel]? with
  | none => rfl
  | some crew => exact ExtTreeMap.getElem?_modify_self

/-- A change of a delivery that finds nothing to do on what it made. -/
theorem modifyDelivery_again {source : String} {f : TurnDeliveryStatus → TurnDeliveryStatus}
    (hf : ∀ d, f (f d) = f d) (ht : t.turnDeliveries = (s.modifyDelivery source f).turnDeliveries) :
    t.turnDeliveries[source]? = some (f (s.turnDeliveries[source]?.getD {})) ∧
      t.modifyDelivery source f = t := by
  have hd : t.turnDeliveries[source]? = some (f (s.turnDeliveries[source]?.getD {})) := by
    rw [ht]
    exact ExtTreeMap.getElem?_alter_self
  refine ⟨hd, ?_⟩
  unfold modifyDelivery
  rw [BTreeMap.alter_eq_self]
  rw [hd, Option.getD_some, hf]

/-- A change of a work item that finds nothing to do on what it made. -/
theorem modifyWork_again (hf : ∀ state, f (f state) = f state)
    (ht : t.work = (s.modifyWork work f).work) : t.modifyWork work f = t := by
  refine modifyWork_eq_self fun state hstate => ?_
  rw [ht, work_modifyWork] at hstate
  obtain ⟨before, -, rfl⟩ := Option.map_eq_some_iff.mp hstate
  exact hf before

theorem modifyWork_modifyWork {g : WorkState → WorkState} :
    (s.modifyWork work f).modifyWork work g = s.modifyWork work (g ∘ f) := by
  unfold modifyWork
  rw [BTreeMap.modify_modify]

/-- A change of a crew member that finds nothing to do on what it made. -/
theorem modifyCrew_again {f : CrewWorkState → CrewWorkState} (hf : ∀ state, f (f state) = f state)
    (ht : t.crewWork = (s.modifyCrew vessel role f).crewWork) : t.modifyCrew vessel role f = t := by
  refine modifyCrew_eq_self fun state hstate => ?_
  have hcrew : t.crewAt vessel role = (s.crewAt vessel role).map f := by
    rw [← crewAt_modifyCrew]
    unfold crewAt
    rw [ht]
  rw [hcrew] at hstate
  obtain ⟨before, -, rfl⟩ := Option.map_eq_some_iff.mp hstate
  exact hf before

theorem clearNudgeBudget_again
    (ht : t.nudgeObligations = (s.clearNudgeBudget vessel role).nudgeObligations) :
    t.clearNudgeBudget vessel role = t := by
  have hsame : (t.nudgeObligations.map fun obligation =>
      if obligation.maker = .actor vessel role then
        { obligation with history := [], quietSince := none, replyAfter := none }
      else obligation) = t.nudgeObligations := by
    rw [ht]
    unfold clearNudgeBudget
    rw [List.map_map]
    refine List.map_congr_left fun obligation _ => ?_
    by_cases h : obligation.maker = .actor vessel role <;> simp [h]
  unfold clearNudgeBudget
  rw [hsame]

theorem clearStallForCrew_again (ht : t.stalled = (s.clearStallForCrew vessel role).stalled) :
    t.clearStallForCrew vessel role = t := by
  unfold clearStallForCrew at ht ⊢
  split at ht
  case isTrue => simp [ht]
  case isFalse hwaits => rw [ht, if_neg hwaits]

theorem clearOperatorPendingBrief_pendingBrief :
    s.clearOperatorPendingBrief.pendingBrief = none := by
  unfold clearOperatorPendingBrief pendingBrief
  rw [ExtTreeMap.getElem?_alter_self]
  cases s.turnDeliveries[pendingBriefDeliverySource]? with
  | none => rfl
  | some d =>
    simp only [Option.bind_eq_bind, Option.bind_some]
    split <;> rfl

theorem clearPendingBriefFor_again
    (ht : t.turnDeliveries = (s.clearPendingBriefFor vessel role).turnDeliveries) :
    t.clearPendingBriefFor vessel role = t := by
  have hbrief : t.pendingBrief = (s.clearPendingBriefFor vessel role).pendingBrief := by
    unfold pendingBrief
    rw [ht]
  have hnone : ¬ (t.pendingBrief.any fun brief =>
      brief.vessel = vessel && brief.role = role) = true := by
    rw [hbrief]
    unfold clearPendingBriefFor
    split
    case isTrue =>
      rw [clearOperatorPendingBrief_pendingBrief]
      exact Bool.false_ne_true
    case isFalse h => exact h
  rw [clearPendingBriefFor, if_neg hnone]

/-- Entering landing leaves the active phase, which it needs. -/
theorem enterLanding_again (at_ : DateTime) :
    (s.enterLandingIfCompletionClaimsSettled at_).enterLandingIfCompletionClaimsSettled at_ =
      s.enterLandingIfCompletionClaimsSettled at_ := by
  have hnot : ¬ (s.enterLandingIfCompletionClaimsSettled at_).readyForLanding = true := by
    unfold enterLandingIfCompletionClaimsSettled
    split
    case isTrue => simp [readyForLanding]
    case isFalse h => exact h
  conv_lhs => rw [enterLandingIfCompletionClaimsSettled, if_neg hnot]

theorem clearStallForCrew_eq (s : ConvoyStatus) (vessel role : String) :
    ∃ stalled, s.clearStallForCrew vessel role = { s with stalled } := by
  unfold clearStallForCrew
  split
  case isTrue => exact ⟨none, rfl⟩
  case isFalse => exact ⟨s.stalled, rfl⟩

theorem clearPendingBriefFor_eq (s : ConvoyStatus) (vessel role : String) :
    ∃ turnDeliveries, s.clearPendingBriefFor vessel role = { s with turnDeliveries } := by
  unfold clearPendingBriefFor
  split
  case isTrue => exact ⟨_, rfl⟩
  case isFalse => exact ⟨s.turnDeliveries, rfl⟩

theorem enterLanding_eq (s : ConvoyStatus) (at_ : DateTime) :
    ∃ landingEntry landingSettlement phase, s.enterLandingIfCompletionClaimsSettled at_ =
      { s with landingEntry, landingSettlement, phase } := by
  unfold enterLandingIfCompletionClaimsSettled
  split
  case isTrue => exact ⟨_, _, _, rfl⟩
  case isFalse => exact ⟨s.landingEntry, s.landingSettlement, s.phase, rfl⟩

variable {r : ConvoyStatus} {exempt : Bool} {body : ConvoyStatus → Flow}

theorem clearTerminalStall_of_live (h : s.phase.isTerminal = false) : s.clearTerminalStall = s := by
  unfold clearTerminalStall
  simp [h]

theorem guarded_of_live (hs : s.phase.isTerminal = false) (hbody : body s = .ok r)
    (hr : r.phase.isTerminal = false) : s.guarded exempt body = r := by
  unfold guarded
  rw [hs, Bool.false_and, if_neg Bool.false_ne_true, hbody]
  exact clearTerminalStall_of_live hr

end ConvoyStatus

/-! ### Bodies that always reach their end -/

namespace EnvironmentRuntimeObservation

theorem differ_self (x : Option String) : differ x x = false := by
  cases x <;> simp [differ]

theorem differ_or (x y : Option String) : differ (x.or y) x = false := by
  cases x with
  | none => cases y <;> rfl
  | some x => simp [differ]

/-- What was observed once adds nothing when it is observed again. -/
theorem merge_merge (self observation : EnvironmentRuntimeObservation) :
    (self.merge observation).merge observation = self.merge observation := by
  by_cases h : (differ self.containerId observation.containerId ||
      differ self.startedAt observation.startedAt) = true
  · have hmerge : self.merge observation = observation := by rw [merge, if_pos h]
    rw [hmerge]
    unfold merge
    simp [differ_self]
  · rw [merge.eq_def self, if_neg h, merge, if_neg (by simp [differ_or])]
    simp only [← Option.or_assoc, Option.or_self]
    split <;> simp

end EnvironmentRuntimeObservation

theorem TurnDeliveryStatus.recordEpisode_again (d : TurnDeliveryStatus)
    (episode : TurnDeliveryEpisode) :
    (d.recordEpisode episode).recordEpisode episode = d.recordEpisode episode := by
  have hrecorded : (d.recordEpisode episode).episodes.any
      (·.subjectRevision = episode.subjectRevision) = true := by
    unfold recordEpisode
    split
    case isTrue h => exact h
    case isFalse =>
      -- The episode is the last one, which the bound on their number keeps.
      refine List.any_eq_true.mpr ⟨episode, ?_, by simp⟩
      dsimp only
      rw [List.drop_append_of_le_length (by simp [episodeHistory])]
      simp
  conv_lhs => rw [recordEpisode, if_pos hrecorded]

namespace ConvoyStatus

variable {s : ConvoyStatus} {source work vessel role message : String}
  {startedAt finishedAt observedAt : DateTime} {roles : BTreeSet String}
  {episode : TurnDeliveryEpisode}

/-- An episode is recorded once, after what there is to clear. -/
theorem recordEpisode_settles {t : ConvoyStatus} (clear : TurnDeliveryStatus → TurnDeliveryStatus)
    (hclear : ∀ d, clear ((clear d).recordEpisode episode) = (clear d).recordEpisode episode)
    (ht : t.turnDeliveries =
      (s.modifyDelivery source fun d => (clear d).recordEpisode episode).turnDeliveries) :
    t.modifyDelivery source (fun d => (clear d).recordEpisode episode) = t := by
  refine (modifyDelivery_again (fun d => ?_) ht).2
  rw [hclear, TurnDeliveryStatus.recordEpisode_again]

theorem holdTurnDelivery_idem {hold : ConvoyAttention} :
    Idem (·.holdTurnDelivery source hold) s := by
  obtain ⟨hd, hsame⟩ := modifyDelivery_again (t := s.holdTurnDelivery source hold)
    (f := fun d => { d with hold := some (d.hold.getD hold) }) (fun _ => rfl) rfl
  simp only [Idem]
  conv_lhs => rw [holdTurnDelivery, hsame, hd]
  rfl

theorem observeEnvironment_idem (vessel : String) (observation : EnvironmentRuntimeObservation) :
    Idem (·.observeEnvironment vessel observation) s := by
  simp only [Idem, observeEnvironment]
  rw [BTreeMap.alter_idem]
  intro prior
  rw [Option.getD_some, EnvironmentRuntimeObservation.merge_merge]

theorem unlinkSubject_idem {subject : Subject} : Idem (·.unlinkSubject subject) s := by
  unfold Idem unlinkSubject
  by_cases h : subject ∈ s.unlinkedSubjects <;> simp [h]

theorem backfillCrewWork_idem {crewWork : BTreeMap String (BTreeMap String CrewWorkState)} :
    Idem (·.backfillCrewWork crewWork roles) s := by
  simp only [Idem, backfillCrewWork]
  rw [BTreeMap.map_idem (by intro work state; split <;> rfl), foldl_idem_of_stable]
  · intro all missing
    refine BTreeMap.alter_idem (fun crew => ?_) all missing.1
    refine congrArg some (ExtTreeMap.ext_getElem? fun role => ?_)
    simp only [Option.getD_some, ExtTreeMap.getElem?_union, Option.or_assoc, Option.or_self]
  · intro all missing other hfixed
    have hlookup := congrArg (fun m => m[missing.1]?) hfixed
    simp only [ExtTreeMap.getElem?_alter_self] at hlookup
    refine BTreeMap.alter_eq_self ?_
    by_cases hvessel : other.1 = missing.1
    · rw [hvessel, ExtTreeMap.getElem?_alter_self]
      refine congrArg some (ExtTreeMap.ext_getElem? fun role => ?_)
      cases hcrew : all[missing.1]? with
      | none => rw [hcrew] at hlookup; cases hlookup
      | some crew =>
        rw [hcrew] at hlookup
        have hrole := congrArg (fun m => m[role]?) (Option.some.inj hlookup)
        simp only [Option.getD_some, ExtTreeMap.getElem?_union] at hrole ⊢
        cases hmember : crew[role]? with
        | some state => simp
        | none =>
          rw [hmember] at hrole
          simp only [Option.none_or] at hrole
          simp [hrole]
    · rw [ExtTreeMap.getElem?_alter, if_neg (by simpa using hvessel)]
      exact hlookup

theorem advanceWorkToReady_idem (ready : BTreeMap String DateTime) :
    Idem (·.advanceWorkToReady ready) s := by
  simp only [Idem, advanceWorkToReady]
  rw [BTreeMap.map_idem]
  · cases s.provisioning with
    | none => cases (ready.toList.map Prod.snd).min? <;> rfl
    | some state => cases state <;> cases (ready.toList.map Prod.snd).min? <;> rfl
  · intro work state
    cases ready[work]? <;> rfl

variable {phase : ConvoyPhase}

theorem failInit_idem (h : phase.isTerminal = false) :
    Idem (·.failInit phase message finishedAt) s := by
  unfold Idem failInit
  simp [h]

theorem rollUpPhase_idem (h : phase.isTerminal = false) {startedAt finishedAt : Option DateTime} :
    Idem (·.rollUpPhase phase startedAt finishedAt) s := by
  unfold Idem rollUpPhase
  rw [h]
  simp only [Bool.false_eq_true, if_false, Option.or_assoc, Option.or_self]
  by_cases hactive : phase = .active <;> cases finishedAt <;> simp [hactive]

theorem observeTurnHookHealth_idem {reason : Option String} :
    Idem (·.observeTurnHookHealth reason observedAt) s := by
  by_cases h : (s.attention.all (·.source = ConvoyAttention.missingTurnHookSource)) = true
  · simp only [Idem, observeTurnHookHealth, if_pos h]
    cases reason <;> simp
  · have hsame : s.observeTurnHookHealth reason observedAt = s := by
      rw [observeTurnHookHealth, if_neg h]
    exact .of_eq_self hsame

theorem queueSupervisorTurn_idem (turn : PendingSupervisorTurn) :
    Idem (·.queueSupervisorTurn turn) s := by
  have hsame := fun order => @modifyDelivery_again s (s.queueSupervisorTurn turn) turn.message.id
    (fun d => { d with pendingSupervisorTurn := some { turn with queuedOrder := order } })
    fun _ => rfl
  obtain ⟨hd, hsame⟩ := hsame _ rfl
  simp only [Idem]
  conv_lhs => rw [queueSupervisorTurn, hd]
  exact hsame

theorem acknowledgeSupervisorTurn_idem (messageId : String) :
    Idem (·.acknowledgeSupervisorTurn messageId) s := by
  have hturns := BTreeMap.alter_idem (f := fun d => d >>= fun d =>
      if d.episodes = [] ∧ d.pendingBrief = none then none
      else some { d with pendingSupervisorTurn := none }) (fun d => by
    cases d with
    | none => rfl
    | some d => by_cases h : d.episodes = [] ∧ d.pendingBrief = none <;> simp [h])
    s.turnDeliveries messageId
  simp only [Idem, acknowledgeSupervisorTurn]
  generalize s.turnDeliveries.alter messageId _ = turns at hturns ⊢
  by_cases h : ((turns.toList.all fun delivery => delivery.2.pendingSupervisorTurn = none) &&
      s.attention.any (·.source = ConvoyAttention.supervisorTurnSource)) = true
  · simp only [if_pos h, hturns]
    simp
  · simp only [if_neg h, hturns]

theorem workLaunching_idem {placement : BTreeMap String Stored} :
    Idem (·.workLaunching work startedAt placement) s :=
  modifyWork_again (fun _ => rfl) rfl

theorem rollUpWork_idem {phase : WorkPhase} {message : Option String} :
    Idem (·.rollUpWork work phase finishedAt message) s := by
  refine modifyWork_again (fun state => ?_) rfl
  by_cases h : phase.isTerminal = true <;> simp [h]

theorem launchCrew_idem (role : String) (state : CrewWorkState) :
    Idem (launchCrew startedAt roles role) state := by
  unfold Idem launchCrew
  by_cases hlaunched : state.phase = .pending ∧ role ∈ roles
  · simp [hlaunched]
  · by_cases hinterrupted : state.phase = .interrupted
    · simp [hinterrupted]
    · rw [if_neg hlaunched, if_neg hinterrupted, if_neg hlaunched, if_neg hinterrupted]

theorem workRunning_idem : Idem (·.workRunning work startedAt roles) s := by
  simp only [Idem, workRunning, modifyWork]
  rw [BTreeMap.modify_idem, BTreeMap.modify_idem]
  · exact fun crew => BTreeMap.map_idem launchCrew_idem crew
  · exact fun _ => rfl

theorem interruptCrew_idem (role : String) (state : CrewWorkState) :
    Idem (interruptCrew roles message role) state := by
  unfold Idem interruptCrew
  by_cases h : role ∈ roles ∧
      (state.phase = .working ∨ state.phase = .interrupted ∨ state.phase = .stalled)
  · simp [h]
  · rw [if_neg h, if_neg h]

theorem workInterrupted_idem : Idem (·.workInterrupted work roles message) s := by
  simp only [Idem, workInterrupted, modifyWork]
  rw [BTreeMap.modify_idem, BTreeMap.modify_idem]
  · exact fun crew => BTreeMap.map_idem interruptCrew_idem crew
  · exact fun _ => rfl

theorem markCrewFailed_idem : Idem (·.markCrewFailed vessel role finishedAt message) s := by
  simp only [Idem]
  have hstep := Eq.refl (s.markCrewFailed vessel role finishedAt message)
  conv at hstep => rhs; unfold markCrewFailed
  generalize hfailed : (s.modifyWork vessel fun work =>
    { work with completionAuthority := .crewRollup }).modifyCrew vessel role _ = failed at hstep
  obtain ⟨turnDeliveries, hbrief⟩ := clearPendingBriefFor_eq failed vessel role
  obtain ⟨stalled, hstall⟩ := clearStallForCrew_eq (failed.clearPendingBriefFor vessel role)
    vessel role
  generalize ht : s.markCrewFailed vessel role finishedAt message = t at hstep ⊢
  have hwork : t.modifyWork vessel (fun work => { work with completionAuthority := .crewRollup }) =
      t := by
    refine modifyWork_again (s := s) (fun _ => rfl) ?_
    rw [hstep, hstall, hbrief, ← hfailed]
    rfl
  have hcrew : t.modifyCrew vessel role (fun state =>
      { state with
        phase := .failed
        finishedAt := some ((if state.phase ≠ .failed then none else state.finishedAt).getD
          finishedAt)
        message := some message }) = t := by
    refine modifyCrew_again (s := s.modifyWork vessel fun work =>
      { work with completionAuthority := .crewRollup }) (fun state => by simp) ?_
    rw [hstep, hstall, hbrief, ← hfailed]
  have hbrief' : t.clearPendingBriefFor vessel role = t := by
    refine clearPendingBriefFor_again (s := failed) ?_
    rw [hstep, hstall]
  have hstall' : t.clearStallForCrew vessel role = t := by
    refine clearStallForCrew_again (s := failed.clearPendingBriefFor vessel role) ?_
    rw [hstep]
  unfold markCrewFailed
  dsimp only
  rw [hwork, hcrew, hbrief', hstall']

theorem failTurnDelivery_idem {failure : TurnDeliveryFailure} :
    Idem (·.failTurnDelivery source failure) s := by
  obtain ⟨hd, hsame⟩ := modifyDelivery_again (t := s.failTurnDelivery source failure)
    (f := fun d => { d with failure := some failure }) (fun _ => rfl) rfl
  simp only [Idem]
  conv_lhs => rw [failTurnDelivery, hsame, hd]
  simp

theorem refuseTurnDelivery_idem {attention : ConvoyAttention} :
    Idem (·.refuseTurnDelivery source episode attention) s := by
  have hsame : (s.refuseTurnDelivery source episode attention).modifyDelivery source
      (fun d => { d with failure := none }.recordEpisode episode) =
      s.refuseTurnDelivery source episode attention :=
    recordEpisode_settles (fun d => { d with failure := none }) (fun d => by
      unfold TurnDeliveryStatus.recordEpisode
      split <;> rfl) rfl
  simp only [Idem]
  conv_lhs => rw [refuseTurnDelivery, hsame]
  rfl

/-! ### Interrupted work -/

theorem mem_foldl_insert {l : List String} {set : BTreeSet String} {x : String} :
    x ∈ l.foldl (·.insert ·) set ↔ x ∈ set ∨ x ∈ l := by
  rw [foldl_or (P := fun set => x ∈ set) (Q := (· = x)) fun set a => ?_]
  · simp
  · rw [ExtTreeSet.mem_insert, Std.compare_eq_iff_eq, or_comm]

theorem mem_workingRoles : role ∈ s.workingRoles work ↔
    ∃ crew state, s.crewWork[work]? = some crew ∧ crew[role]? = some state ∧
      state.phase = .working := by
  unfold workingRoles
  rw [mem_foldl_insert, or_iff_right (by simp), List.mem_filterMap]
  constructor
  · rintro ⟨member, hmember, hworking⟩
    cases hcrew : s.crewWork[work]? with
    | none => rw [hcrew] at hmember; cases hmember
    | some crew =>
      rw [hcrew] at hmember
      split at hworking
      case isTrue hphase =>
        cases hworking
        exact ⟨crew, member.2, rfl,
          ExtTreeMap.mem_toList_iff_getElem?_eq_some.mp hmember, hphase⟩
      case isFalse => cases hworking
  · rintro ⟨crew, state, hcrew, hstate, hphase⟩
    rw [hcrew]
    exact ⟨(role, state), ExtTreeMap.mem_toList_iff_getElem?_eq_some.mpr hstate,
      by simp [hphase]⟩

/-- The crew of an interrupted work item, whose working members were interrupted. -/
theorem crewWork_workInterrupted {crew : BTreeMap String CrewWorkState} {state : CrewWorkState}
    (hcrew : (s.workInterrupted work roles message).crewWork[work]? = some crew)
    (hstate : crew[role]? = some state) :
    ∃ before prior, s.crewWork[work]? = some before ∧ before[role]? = some prior ∧
      state = interruptCrew roles message role prior := by
  unfold workInterrupted at hcrew
  rw [ExtTreeMap.getElem?_modify_self] at hcrew
  obtain ⟨before, hbefore, rfl⟩ := Option.map_eq_some_iff.mp hcrew
  rw [ExtTreeMap.getElem?_map] at hstate
  obtain ⟨prior, hprior, rfl⟩ := Option.map_eq_some_iff.mp hstate
  exact ⟨before, prior, hbefore, hprior, rfl⟩

theorem workProvisioningRetry_eq (hs : s.phase.isTerminal = false) (work : String)
    (retry : ControllerRetry) (message : String) :
    s.workProvisioningRetry work retry message =
      (s.workInterrupted work (s.workingRoles work) message).modifyWork work fun state =>
        { state with provisioningRetry := some retry } := by
  have hinterrupted : (s.guarded false fun s =>
      pure (s.workInterrupted work (s.workingRoles work) message)) =
      s.workInterrupted work (s.workingRoles work) message := guarded_of_live hs rfl hs
  unfold workProvisioningRetry
  rw [hinterrupted]

theorem workProvisioningRetry_idem (hs : s.phase.isTerminal = false) {retry : ControllerRetry} :
    Idem (·.workProvisioningRetry work retry message) s := by
  have hstep := workProvisioningRetry_eq hs work retry message
  simp only [Idem]
  generalize s.workProvisioningRetry work retry message = t at hstep ⊢
  have hlive : t.phase.isTerminal = false := by rw [hstep]; exact hs
  -- Nobody is working after the first time, so nobody is interrupted again.
  have hcrew : ∀ crew role state, t.crewWork[work]? = some crew → crew[role]? = some state →
      interruptCrew (t.workingRoles work) message role state = state := by
    intro crew role state hcrew hstate
    have hrole : role ∉ t.workingRoles work := by
      rw [mem_workingRoles]
      rintro ⟨crew', state', hcrew', hstate', hworking⟩
      rw [hstep] at hcrew'
      obtain ⟨before, prior, hbefore, hprior, rfl⟩ := crewWork_workInterrupted hcrew' hstate'
      unfold interruptCrew at hworking
      split at hworking
      case isTrue => cases hworking
      case isFalse hnot =>
        exact hnot ⟨mem_workingRoles.mpr ⟨before, prior, hbefore, hprior, hworking⟩, .inl hworking⟩
    rw [interruptCrew, if_neg fun h => hrole h.1]
  have hsame : (t.crewWork.modify work fun crew =>
      crew.map (interruptCrew (t.workingRoles work) message)) = t.crewWork :=
    BTreeMap.modify_eq_self fun crew hc => BTreeMap.map_eq_self fun role state hr =>
      hcrew crew role state hc hr
  have hinterrupted : t.workInterrupted work (t.workingRoles work) message =
      t.modifyWork work fun state =>
        { state with
          phase := .interrupted
          completionAuthority := .crewRollup
          message := some message
          finishedAt := none } := by
    unfold workInterrupted
    dsimp only
    rw [show (t.modifyWork work _).crewWork = t.crewWork from rfl, hsame]
    rfl
  rw [workProvisioningRetry_eq hlive, hinterrupted, modifyWork_modifyWork]
  refine modifyWork_again (s := s) (fun _ => rfl) ?_
  rw [hstep, ← modifyWork_modifyWork]
  rfl

/-! ### Discovered subjects -/

/-- The subject is refused, or everything its discovery records is recorded. -/
def Discovered (s : ConvoyStatus) (subject : Subject) (relationship : Relationship)
    (source : SubjectDiscoverySource) (at_ : DateTime) : Prop :=
  (subject ∈ s.unlinkedSubjects ∧ source ≠ .operator) ∨
    (subject ∉ s.unlinkedSubjects ∧
      (subject.kind = .changeRequest ∧ relationship = .produces →
        s.branchSubjectScanAt = some at_ ∧ s.branchSubjectScanError = none) ∧
      ∃ entry, s.subjects.find? (fun entry =>
          decide (entry.subject = subject ∧ entry.relationship = relationship)) = some entry ∧
        ∃ evidence, entry.sources.find? (·.source = source) = some evidence ∧ evidence.at_ = at_)

section Discover

variable {subject : Subject} {relationship : Relationship} {source : SubjectDiscoverySource}
  {at_ : DateTime}

theorem recordSource_eq_self {entry : DiscoveredSubject} {evidence : SubjectDiscovery}
    (h : entry.sources.find? (·.source = source) = some evidence) (hat : evidence.at_ = at_) :
    recordSource source at_ entry = entry := by
  have hsame : modifyFirst (·.source = source)
      (fun evidence => { evidence with at_ := at_ }) entry.sources =
        entry.sources := by
    refine modifyFirst_eq_self fun found hfound => ?_
    rw [h] at hfound
    rw [← Option.some.inj hfound, ← hat]
  unfold recordSource
  rw [if_pos (any_of_find? h), hsame]

theorem find?_recordSource (entry : DiscoveredSubject) :
    ∃ evidence, (recordSource source at_ entry).sources.find? (·.source = source) = some evidence ∧
      evidence.at_ = at_ := by
  obtain ⟨evidence, hfind, hat⟩ := find?_upsert (l := entry.sources) (p := (·.source = source))
    (f := fun evidence => { evidence with at_ := at_ }) (b := ⟨source, at_⟩) (fun _ h => h)
    (by simp)
  exact ⟨evidence, hfind, by rcases hat with rfl | ⟨_, rfl⟩ <;> rfl⟩

theorem Discovered.eq_self (h : s.Discovered subject relationship source at_) :
    s.discoverSubject subject relationship source at_ = s := by
  unfold discoverSubject
  rcases h with hrefused | ⟨hlinked, hscan, entry, hentry, evidence, hevidence, hat⟩
  · rw [if_pos hrefused]
  · have hsubjects : modifyFirst (fun entry =>
        decide (entry.subject = subject ∧ entry.relationship = relationship))
        (recordSource source at_) s.subjects = s.subjects := by
      refine modifyFirst_eq_self fun found hfound => ?_
      rw [hentry] at hfound
      rw [← Option.some.inj hfound]
      exact recordSource_eq_self hevidence hat
    have hunlinked : s.unlinkedSubjects.filter (· ≠ subject) = s.unlinkedSubjects := by
      refine List.filter_eq_self.mpr fun other hother => ?_
      simp only [ne_eq, decide_eq_true_eq]
      rintro rfl
      exact hlinked hother
    rw [if_neg fun h => hlinked h.1]
    dsimp only
    rw [if_pos (any_of_find? hentry), hsubjects, hunlinked, ite_self]
    by_cases hscanned : subject.kind = .changeRequest ∧ relationship = .produces
    · rw [if_pos hscanned, if_pos hscanned, ← (hscan hscanned).1, ← (hscan hscanned).2]
    · rw [if_neg hscanned, if_neg hscanned]

theorem discovered_discoverSubject (s : ConvoyStatus) (subject : Subject)
    (relationship : Relationship) (source : SubjectDiscoverySource) (at_ : DateTime) :
    (s.discoverSubject subject relationship source at_).Discovered subject relationship source
      at_ := by
  by_cases hrefused : subject ∈ s.unlinkedSubjects ∧ source ≠ .operator
  · rw [discoverSubject, if_pos hrefused]
    exact .inl hrefused
  · rw [discoverSubject, if_neg hrefused]
    refine .inr ⟨?_, ?_, ?_⟩
    · dsimp only
      split
      case isTrue => simp
      case isFalse hsource => exact fun h => hrefused ⟨h, hsource⟩
    · intro hscanned
      dsimp only
      rw [if_pos hscanned, if_pos hscanned]
      exact ⟨rfl, rfl⟩
    · obtain ⟨entry, hfind, hentry⟩ := find?_upsert
        (p := fun (entry : DiscoveredSubject) =>
          decide (entry.subject = subject ∧ entry.relationship = relationship))
        (f := recordSource source at_) (b := ⟨subject, relationship, [⟨source, at_⟩]⟩)
        (fun _ h => h) (by simp)
      refine ⟨entry, hfind, ?_⟩
      rcases hentry with rfl | ⟨entry, rfl⟩
      · exact ⟨⟨source, at_⟩, by simp, rfl⟩
      · exact find?_recordSource entry

/-- Another discovery of the same pass undoes nothing. -/
theorem Discovered.discoverSubject (h : s.Discovered subject relationship source at_)
    (other : Subject) (otherRelationship : Relationship) :
    (s.discoverSubject other otherRelationship source at_).Discovered subject relationship source
      at_ := by
  by_cases hsame : other = subject ∧ otherRelationship = relationship
  · rw [hsame.1, hsame.2]
    exact discovered_discoverSubject s subject relationship source at_
  by_cases hother : other ∈ s.unlinkedSubjects ∧ source ≠ .operator
  · rw [ConvoyStatus.discoverSubject, if_pos hother]
    exact h
  rw [ConvoyStatus.discoverSubject, if_neg hother]
  rcases h with ⟨hunlinked, hsource⟩ | ⟨hlinked, hscan, entry, hentry, hevidence⟩
  · refine .inl ⟨?_, hsource⟩
    rw [if_neg hsource]
    exact hunlinked
  · refine .inr ⟨?_, fun hscanned => ?_, entry, ?_, hevidence⟩
    · dsimp only
      split
      case isTrue => exact fun hmem => hlinked (List.mem_of_mem_filter hmem)
      case isFalse => exact hlinked
    · dsimp only
      rw [(hscan hscanned).1, (hscan hscanned).2, ite_self, ite_self]
      exact ⟨rfl, rfl⟩
    · dsimp only
      split
      case isTrue =>
        rw [find?_modifyFirst_other, hentry]
        intro a ha
        have hne : ¬ (a.subject = subject ∧ a.relationship = relationship) := by
          rintro ⟨rfl, rfl⟩
          exact hsame ((of_decide_eq_true ha).imp Eq.symm Eq.symm)
        exact ⟨decide_eq_false hne, decide_eq_false hne⟩
      case isFalse => rw [List.find?_append, hentry, Option.some_or]

theorem discoverSubjects_idem {subjects : List (Subject × Relationship)} :
    Idem (·.discoverSubjects subjects source at_) s := by
  refine foldl_idem_of_stable (fun t subject => ?_) (fun t subject other h => ?_) subjects s
  · exact (discovered_discoverSubject t subject.1 subject.2 source at_).eq_self
  · have hdone : t.Discovered subject.1 subject.2 source at_ := by
      have hdone := discovered_discoverSubject t subject.1 subject.2 source at_
      rwa [h] at hdone
    exact (hdone.discoverSubject other.1 other.2).eq_self

end Discover

/-! ### Queued turns -/

section Queued

variable {observedAt : DateTime} {observation : QueuedTurnObservation}

/-- What an observation makes of one delivery. -/
def observedDelivery (observedAt : DateTime) (observation : QueuedTurnObservation)
    (d : TurnDeliveryStatus) : TurnDeliveryStatus :=
  { d with
    episodes := modifyFirst (·.subjectRevision = observation.subjectRevision)
      (observeQueued observedAt observation) d.episodes }

/-- What the observations make of the deliveries. -/
def observedDeliveries (observedAt : DateTime) (observations : List QueuedTurnObservation)
    (deliveries : BTreeMap String TurnDeliveryStatus) : BTreeMap String TurnDeliveryStatus :=
  observations.foldl (fun deliveries observation =>
    deliveries.modify observation.source (observedDelivery observedAt observation)) deliveries

/-- Observations change the deliveries only. -/
theorem foldl_observeQueuedTurn (observations : List QueuedTurnObservation) :
    observations.foldl (observeQueuedTurn observedAt) s =
      { s with turnDeliveries := observedDeliveries observedAt observations s.turnDeliveries } := by
  induction observations generalizing s with
  | nil => rfl
  | cons observation observations ih =>
    rw [List.foldl_cons, ih]
    rfl

theorem observeQueued_idem (episode : TurnDeliveryEpisode) :
    Idem (observeQueued observedAt observation) episode := by
  unfold Idem observeQueued
  cases episode.outcome with
  | queued => by_cases h : observation.confirmed = true <;> simp [h]
  | messageAccepted | delivered | refused => rfl

/-- A confirmation is final; a blocking reason is replaced by whatever is observed next. -/
theorem observeQueued_pass (observedAt : DateTime) (observation other : QueuedTurnObservation)
    (episode : TurnDeliveryEpisode) :
    if observation.confirmed then
      observeQueued observedAt other (observeQueued observedAt observation episode) =
        observeQueued observedAt observation (observeQueued observedAt other episode)
    else observeQueued observedAt other (observeQueued observedAt observation episode) =
      observeQueued observedAt other episode := by
  unfold observeQueued
  cases episode.outcome with
  | queued =>
    by_cases h : observation.confirmed = true <;> by_cases h' : other.confirmed = true <;>
      simp [h, h']
  | messageAccepted | delivered | refused => simp

theorem observedDelivery_idem (d : TurnDeliveryStatus) :
    Idem (observedDelivery observedAt observation) d := by
  simp only [Idem, observedDelivery]
  rw [modifyFirst_idem]
  exact fun episode h => ⟨h, observeQueued_idem episode⟩

theorem observedDelivery_pass (observedAt : DateTime) (observation other : QueuedTurnObservation) :
    (∀ d, observedDelivery observedAt other (observedDelivery observedAt observation d) =
        observedDelivery observedAt other d) ∨
      ∀ d, observedDelivery observedAt other (observedDelivery observedAt observation d) =
        observedDelivery observedAt observation (observedDelivery observedAt other d) := by
  unfold observedDelivery
  by_cases hrevision : observation.subjectRevision = other.subjectRevision
  · -- Both change the same episode.
    rw [hrevision]
    by_cases hconfirmed : observation.confirmed = true
    · refine .inr fun d => ?_
      have hcomm : observeQueued observedAt other ∘ observeQueued observedAt observation =
          observeQueued observedAt observation ∘ observeQueued observedAt other := by
        funext episode
        have hpass := observeQueued_pass observedAt observation other episode
        rwa [if_pos hconfirmed] at hpass
      rw [modifyFirst_modifyFirst (by exact fun _ h => h),
        modifyFirst_modifyFirst (by exact fun _ h => h), hcomm]
    · refine .inl fun d => ?_
      have hover : observeQueued observedAt other ∘ observeQueued observedAt observation =
          observeQueued observedAt other := by
        funext episode
        have hpass := observeQueued_pass observedAt observation other episode
        rwa [if_neg hconfirmed] at hpass
      rw [modifyFirst_modifyFirst (by exact fun _ h => h), hover]
  · refine .inr fun d => ?_
    rw [modifyFirst_comm]
    · intro episode h
      simp only [decide_eq_true_eq] at h
      simp [h, hrevision]
    · exact fun _ => rfl
    · exact fun _ => rfl

theorem observeQueuedTurns_idem (observations : List QueuedTurnObservation) (observedAt : DateTime)
    (deliveries : BTreeMap String TurnDeliveryStatus) :
    Idem (observedDeliveries observedAt observations) deliveries := by
  refine foldl_idem_of_overridden (fun m observation => ?_) (fun m observation other => ?_)
    observations deliveries
  · exact BTreeMap.modify_idem observedDelivery_idem m observation.source
  · by_cases hsource : observation.source = other.source
    · rw [hsource, BTreeMap.modify_modify, BTreeMap.modify_modify]
      rcases observedDelivery_pass observedAt observation other with hover | hcomm
      · exact .inl (congrArg (m.modify other.source) (funext hover))
      · exact .inr (congrArg (m.modify other.source) (funext hcomm))
    · exact .inr (BTreeMap.modify_comm m hsource _ _)

theorem observeQueuedTurnDeliveries_idem (names : Spelling)
    (observations : List QueuedTurnObservation) (observedAt : DateTime) :
    Idem (·.observeQueuedTurnDeliveries names observations observedAt) s := by
  have hagain := observeQueuedTurns_idem observations observedAt s.turnDeliveries
  simp only [Idem, observeQueuedTurnDeliveries, foldl_observeQueuedTurn] at hagain ⊢
  generalize observedDeliveries observedAt observations s.turnDeliveries =
    turnDeliveries at hagain ⊢
  by_cases hattention : (s.attention.all (·.source = ConvoyAttention.queuedTurnSource)) = true
  · simp only [if_pos hattention, hagain]
    -- The attention is not read by what decides whether a turn is overdue.
    obtain ⟨overdue, hoverdue⟩ : ∃ overdue, ∀ attention,
        overdueTurns names { s with turnDeliveries, attention } observedAt = overdue :=
      ⟨overdueTurns names { s with turnDeliveries } observedAt, fun _ => rfl⟩
    simp only [hoverdue]
    by_cases hnone : overdue = [] <;> simp [hnone]
  · simp only [if_neg hattention, hagain]

end Queued

/-! ### Seeded promises -/

section Seed

variable {names : Spelling}

/-- What seeding changes: crew members gain promises, and nothing else happens. -/
structure Seeds (s t : ConvoyStatus) : Prop where
  same : ∃ promises, t = { s with promises }
  kept : ∀ vessel role, ∀ p ∈ s.owned vessel role, p ∈ t.owned vessel role

theorem Seeds.refl (s : ConvoyStatus) : Seeds s s := ⟨⟨s.promises, rfl⟩, fun _ _ _ h => h⟩

theorem Seeds.trans {s t u : ConvoyStatus} (h : Seeds s t) (h' : Seeds t u) : Seeds s u := by
  obtain ⟨promises, rfl⟩ := h.same
  obtain ⟨promises', rfl⟩ := h'.same
  exact ⟨⟨promises', rfl⟩, fun v r p hp => h'.kept v r p (h.kept v r p hp)⟩

theorem Seeds.any_id {s t : ConvoyStatus} (h : Seeds s t) {vessel role id : String}
    (hs : (s.owned vessel role).any (·.id = id) = true) :
    (t.owned vessel role).any (·.id = id) = true := by
  obtain ⟨p, hp, hid⟩ := List.any_eq_true.mp hs
  exact List.any_eq_true.mpr ⟨p, h.kept vessel role p hp, hid⟩

theorem seeds_declare (names : Spelling) (hs : s.phase.isTerminal = false) (vessel role id : String)
    (kind : PromiseKind) (source : PromiseSource) :
    Seeds s (applyPromise names s vessel role (.declare id kind source)) ∧
      ((applyPromise names s vessel role (.declare id kind source)).owned vessel role).any
        (·.id = id) = true := by
  rw [applyPromise_declare hs]
  refine ⟨⟨⟨_, rfl⟩, fun v r p hp => ?_⟩, ?_⟩
  · rw [owned_modifyOwned]
    split
    case isTrue hvr =>
      obtain ⟨rfl, rfl⟩ := hvr
      unfold declare
      split
      case isTrue => exact hp
      case isFalse => exact List.mem_append_left _ hp
    case isFalse => exact hp
  · rw [owned_modifyOwned, if_pos ⟨rfl, rfl⟩]
    exact any_id_declare id kind source

/-- Every declaration that is seeded is held afterwards. -/
theorem seeds_foldl (names : Spelling) {declarations : List (String × String × PromiseOperation)}
    (hdeclare : ∀ d ∈ declarations, ∃ id kind source, d.2.2 = .declare id kind source) :
    ∀ {s : ConvoyStatus}, s.phase.isTerminal = false →
    Seeds s (declarations.foldl (fun s d => s.applyPromise names d.1 d.2.1 d.2.2) s) ∧
      ∀ vessel role id kind source,
        (vessel, role, PromiseOperation.declare id kind source) ∈ declarations →
        ((declarations.foldl (fun s d => s.applyPromise names d.1 d.2.1 d.2.2) s).owned vessel
          role).any (·.id = id) = true := by
  induction declarations with
  | nil => exact fun _ => ⟨.refl _, fun _ _ _ _ _ h => absurd h List.not_mem_nil⟩
  | cons d declarations ih =>
    intro s hs
    obtain ⟨vessel, role, operation⟩ := d
    obtain ⟨id, kind, source, hoperation⟩ := hdeclare _ List.mem_cons_self
    subst hoperation
    obtain ⟨hseeds, hheld⟩ := seeds_declare names hs vessel role id kind source
    have hlive : (applyPromise names s vessel role (.declare id kind source)).phase.isTerminal =
        false := by
      obtain ⟨promises, hsame⟩ := hseeds.same
      rw [hsame]
      exact hs
    obtain ⟨hrest, hrestHeld⟩ := ih (fun d hd => hdeclare d (List.mem_cons_of_mem _ hd)) hlive
    refine ⟨hseeds.trans hrest, fun v r i k src hmem => ?_⟩
    rcases List.mem_cons.mp hmem with heq | hmem
    · cases heq
      exact hrest.any_id hheld
    · exact hrestHeld v r i k src hmem

theorem dispatchHeld_iff {promise : DispatchPromise} : dispatchHeld s promise = true ↔
    (s.owned promise.vessel promise.role).any (·.id = promise.label) = true ∨
      ∃ role, ∃ p ∈ s.owned promise.vessel role,
        p.source = .dispatch ∧ dispatchOrigin p.id = promise.label := by
  unfold dispatchHeld
  rw [Bool.or_eq_true]
  refine or_congr_right ?_
  unfold owned
  cases hcrew : s.promises[promise.vessel]? with
  | none => simp
  | some crew =>
    simp only [Option.any_some, List.any_eq_true, Bool.and_eq_true, decide_eq_true_eq,
      Option.bind_eq_bind, Option.bind_some]
    constructor
    · rintro ⟨held, hheld, p, hp, hmatch⟩
      refine ⟨held.1, p, ?_, hmatch⟩
      rw [ExtTreeMap.mem_toList_iff_getElem?_eq_some.mp hheld]
      exact hp
    · rintro ⟨role, p, hp, hmatch⟩
      cases hrole : crew[role]? with
      | none => rw [hrole] at hp; cases hp
      | some held =>
        rw [hrole] at hp
        exact ⟨(role, held), ExtTreeMap.mem_toList_iff_getElem?_eq_some.mpr hrole, p, hp, hmatch⟩

variable {d : String × String × PromiseOperation}

theorem mem_templateDeclarations :
    d ∈ templateDeclarations s ↔ ∃ vessel ∈ (s.workflowSnapshot.map (·.vessels)).getD [],
      ∃ crew ∈ vessel.crew, seedsOpenPromises s vessel.name crew.role = true ∧
        ∃ kind ∈ crew.templateKinds,
          (s.owned vessel.name crew.role).any (·.id = templateId kind) = false ∧
          (vessel.name, crew.role, PromiseOperation.declare (templateId kind) kind .template) =
            d := by
  unfold templateDeclarations
  simp only [List.mem_flatMap, List.mem_filter, List.mem_map, Bool.not_eq_true', and_assoc]

theorem mem_dispatchDeclarations {dispatch : List DispatchPromise} :
    d ∈ admittedDeclarations dispatch s ↔ d ∈ templateDeclarations s ∨
      ∃ promise ∈ dispatch, dispatchAdmitted s promise = true ∧ dispatchHeld s promise = false ∧
        (promise.vessel, promise.role,
          PromiseOperation.declare promise.label promise.kind .dispatch) = d := by
  unfold admittedDeclarations
  simp only [List.mem_append, List.mem_map, List.mem_filter, Bool.and_eq_true, Bool.not_eq_true',
    and_assoc]

theorem admittedDeclarations_declare (s : ConvoyStatus) (dispatch : List DispatchPromise) :
    ∀ d ∈ admittedDeclarations dispatch s, ∃ id kind source, d.2.2 = .declare id kind source := by
  intro d h
  rcases mem_dispatchDeclarations.mp h with h | ⟨_, _, _, _, rfl⟩
  · obtain ⟨_, _, _, _, _, _, _, _, rfl⟩ := mem_templateDeclarations.mp h
    exact ⟨_, _, _, rfl⟩
  · exact ⟨_, _, _, rfl⟩

/-- **Nothing is left to seed**: what was admitted is held, by the declaration or from before. -/
theorem admittedDeclarations_seedPromises (names : Spelling) (hs : s.phase.isTerminal = false)
    (dispatch : List DispatchPromise) :
    Seeds s (seedPromises names dispatch s) ∧
      admittedDeclarations dispatch (seedPromises names dispatch s) = [] := by
  obtain ⟨hseeds, hheld⟩ : Seeds s (seedPromises names dispatch s) ∧ ∀ vessel role id kind source,
      _ ∈ _ → ((seedPromises names dispatch s).owned vessel role).any (·.id = id) = true :=
    seeds_foldl names (admittedDeclarations_declare s dispatch) hs
  refine ⟨hseeds, List.eq_nil_iff_forall_not_mem.mpr fun d hd => ?_⟩
  generalize seedPromises names dispatch s = t at hd hseeds hheld
  obtain ⟨promises, rfl⟩ := hseeds.same
  rcases mem_dispatchDeclarations.mp hd with hd | ⟨promise, hpromise, hadmitted, hfree, -⟩
  · obtain ⟨vessel, hvessel, crew, hcrew, hopen, kind, hkind, hfree, -⟩ :=
      mem_templateDeclarations.mp hd
    refine Bool.eq_false_iff.mp hfree ?_
    rcases Bool.eq_false_or_eq_true ((s.owned vessel.name crew.role).any
      (·.id = templateId kind)) with hbefore | hbefore
    · exact hseeds.any_id hbefore
    · exact hheld vessel.name crew.role (templateId kind) kind .template
        (mem_dispatchDeclarations.mpr (.inl (mem_templateDeclarations.mpr
          ⟨vessel, hvessel, crew, hcrew, hopen, kind, hkind, hbefore, rfl⟩)))
  · refine Bool.eq_false_iff.mp hfree (dispatchHeld_iff.mpr ?_)
    rcases Bool.eq_false_or_eq_true (dispatchHeld s promise) with hbefore | hbefore
    · rcases dispatchHeld_iff.mp hbefore with hbefore | ⟨role, p, hp, hmatch⟩
      · exact .inl (hseeds.any_id hbefore)
      · exact .inr ⟨role, p, hseeds.kept promise.vessel role p hp, hmatch⟩
    · exact .inl (hheld promise.vessel promise.role promise.label promise.kind .dispatch
        (mem_dispatchDeclarations.mpr (.inr ⟨promise, hpromise, hadmitted, hbefore, rfl⟩)))

theorem bootstrap_idem (hs : s.phase.isTerminal = false) {snapshot : WorkflowSnapshot}
    {ref : String} {workflows : BTreeMap String String} {work : BTreeMap String WorkState}
    {crewWork : BTreeMap String (BTreeMap String CrewWorkState)}
    {dispatch : List DispatchPromise} {phase : ConvoyPhase} {startedAt : Option DateTime} :
    Idem (·.bootstrap names snapshot ref workflows work crewWork dispatch phase startedAt) s := by
  generalize hbase : { s with
    provisioning := some (s.provisioning.getD .notStarted)
    workflowSnapshot := some snapshot
    observedWorkflowRef := some ref
    observedWorkflows := some workflows
    work, crewWork } = base
  have hlive : base.phase.isTerminal = false := by rw [← hbase]; exact hs
  obtain ⟨hseeds, hnothing⟩ := admittedDeclarations_seedPromises names hlive dispatch
  obtain ⟨promises, hsame⟩ := hseeds.same
  generalize ht : { base with promises, phase, startedAt := base.startedAt.or startedAt } = t
  have hstep : s.bootstrap names snapshot ref workflows work crewWork dispatch phase startedAt =
      t := by
    unfold bootstrap
    rw [hbase, hsame, ← ht]
  have hseeded : seedPromises names dispatch t = t := by
    have hnone : admittedDeclarations dispatch t = [] := by
      rw [hsame] at hnothing
      rw [← ht]
      exact hnothing
    rw [seedPromises, hnone]
    rfl
  -- The second time starts from what the first one made, field by field.
  have hagain : t.bootstrap names snapshot ref workflows work crewWork dispatch phase startedAt =
      { seedPromises names dispatch t with
        phase, startedAt := (seedPromises names dispatch t).startedAt.or startedAt } := by
    rw [← ht, ← hbase]
    rfl
  simp only [Idem]
  rw [hstep, hagain, hseeded, ← ht]
  simp only [Option.or_assoc, Option.or_self]

end Seed

end ConvoyStatus

end Flotilla.Status
