import Flotilla.Lib.Descent
import Flotilla.Status.Landing

/-!
# Passes come to rest

While vessels, checkouts, conditions and the time stand still, a pass and the
write of its patch are a step on the status, and repeating it comes to rest: the
rules about evidence, bootstrap, crews, vessels, roll-up, readiness and phases
never undo each other forever.

There are two ways to keep them from resting.  Two vessel objects that stand for
one vessel name overwrite each other's evidence; a convoy has one vessel object
for each name.  And in an ensured convoy a crew member that failed stalls its
work while a vessel that is lost, failed or interrupted interrupts it; the two
rules take turns (`contested_work_never_rests`).

* `Fair` : neither is the case.
* `workRank` : how far a work item is from where its vessel and its crew leave it.
* `left` : what is left to do, in the order of the rules.
* `Pass.left_lt` : every patch of a pass leaves less.
* `reconcile_rests` : the passes come to rest.
-/

namespace Flotilla.Status

open Lib Std ConvoyStatus

/-- What its vessel says decides over a work item, whatever the crew reports. -/
def Vessel.overrules (vessel : Vessel) : Bool :=
  match vessel.phase with
  | some .lost | some .failed => true
  | some .interrupted => vessel.deletionTimestamp.isNone
  | _ => false

/-- The vessel carries runtime evidence. -/
def Vessel.isObserved (vessel : Vessel) : Bool :=
  (vessel.status >>= (·.runtimeObservation)).isSome

/-- No two vessels with evidence stand for one vessel name, and in an ensured convoy no work item
that its vessel decides over has a crew member that failed. -/
structure Fair (w : World) (s : ConvoyStatus) : Prop where
  slots : ∀ (k k' : String) (v v' : Vessel), w.vessels[k]? = some v → w.vessels[k']? = some v' →
    v.isObserved = true → v'.isObserved = true → v.spec.vesselName = v'.spec.vesselName → k = k'
  crew : w.convoy.isEnsured = true → ∀ (work : String) (vessel : Vessel), work ∈ s.work →
    w.vesselOf work = some vessel → vessel.overrules = true → s.anyCrew work .failed = false

/-! ### Where a work item is heading -/

/-- An interruption that says what the vessel says, or waits for an attempt that is not due. -/
def interruptionSettled (w : World) (work : String) (state : WorkState) : Bool :=
  match w.vesselOf work with
  | some vessel =>
    if vessel.phase = some .lost then state.message = some vessel.lostMessage
    else if vessel.phase = some .failed then
      state.provisioningRetry.isSome && state.message = some vessel.failureMessage
    else true
  | none => state.provisioningRetry.any fun retry => retry.nextAttemptAt.any (w.now < ·)

/-- Interrupted work does not stay interrupted: its vessel is ready, or its crew failed. -/
def leavesInterruption (w : World) (s : ConvoyStatus) (work : String) : Bool :=
  (w.vesselOf work).any (fun vessel => vessel.phase = some .ready) ||
    (w.convoy.isEnsured && s.anyCrew work .failed)

/-- Work that runs ends up stalled, and not the other way round. -/
def endsStalled (w : World) (s : ConvoyStatus) (work : String) : Bool :=
  s.anyCrew work .stalled ||
    (w.convoy.isEnsured && (s.anyCrew work .failed || (w.vesselOf work).isNone))

def rankOf (phase : WorkPhase) (failed done stalls leaves settled : Bool) : Nat :=
  match phase with
  | .pending => 20
  | .ready => 19
  | .launching => 18
  | .cancelled | .abandoned => 17
  | .complete => if failed then 17 else if done then 0 else 16
  | .interrupted => (if leaves then 10 else 1) + (if settled then 0 else 1)
  | .running => if stalls then 6 else 5
  | .stalled => if stalls then 5 else 6
  | .failed => 0

/-- How far a work item is from rest. -/
def workRank (w : World) (s : ConvoyStatus) (work : String) (state : WorkState) : Nat :=
  rankOf state.phase (s.anyCrew work .failed) (s.crewDone work) (endsStalled w s work)
    (leavesInterruption w s work) (interruptionSettled w work state)

section Crew

variable {w : World} {s s' : ConvoyStatus} {work : String}

/-- The rank of a work item depends on its own crew only. -/
theorem workRank_congr (h : s'.crewWork[work]? = s.crewWork[work]?) (state : WorkState) :
    workRank w s' work state = workRank w s work state := by
  simp only [workRank, endsStalled, leavesInterruption, anyCrew,
    crewDone, h]

variable {phase : CrewWorkPhase}

theorem anyCrew_iff :
    s.anyCrew work phase = true ↔
      ∃ role state, s.crewAt work role = some state ∧ state.phase = phase := by
  simp only [anyCrew, crewAt, Option.any_eq_true, List.any_eq_true,
    decide_eq_true_eq, Prod.exists, ExtTreeMap.mem_toList_iff_getElem?_eq_some,
    Option.bind_eq_bind, Option.bind_eq_some_iff]
  constructor
  · rintro ⟨crew, hcrew, role, state, hstate, hphase⟩
    exact ⟨role, state, ⟨crew, hcrew, hstate⟩, hphase⟩
  · rintro ⟨role, state, ⟨crew, hcrew, hstate⟩, hphase⟩
    exact ⟨crew, hcrew, role, state, hstate, hphase⟩

/-- Crews that agree on who failed. -/
theorem anyCrew_congr (h : ∀ role, (s'.crewAt work role).any (·.phase = phase) =
      (s.crewAt work role).any (·.phase = phase)) :
    s'.anyCrew work phase = s.anyCrew work phase := by
  have hiff : ∀ t : ConvoyStatus, t.anyCrew work phase = true ↔
      ∃ role, (t.crewAt work role).any (·.phase = phase) = true := by
    intro t
    rw [anyCrew_iff]
    simp only [Option.any_eq_true, decide_eq_true_eq]
  rw [Bool.eq_iff_iff, hiff, hiff]
  simp only [h]

theorem Fair.of_same (h : Fair w s) (hwork : ∀ work, work ∈ s'.work → work ∈ s.work)
    (hcrew : ∀ work, s'.anyCrew work .failed = s.anyCrew work .failed) : Fair w s' where
  slots := h.slots
  crew := by
    intro hensured work vessel hmem hvessel hoverrules
    rw [hcrew]
    exact h.crew hensured work vessel (hwork work hmem) hvessel hoverrules

end Crew

/-! ### Moving one work item -/

/-- One work item and its crew are changed, and nothing else. -/
def ConvoyStatus.touch (s : ConvoyStatus) (work : String) (f : WorkState → WorkState)
    (g : String → CrewWorkState → CrewWorkState) : ConvoyStatus :=
  { s with
    work := s.work.modify work f
    crewWork := s.crewWork.modify work fun crew => crew.map g }

/-- No crew member fails, and none that failed recovers. -/
def KeepsFailures (g : String → CrewWorkState → CrewWorkState) : Prop :=
  ∀ role state, (g role state).phase = .failed ↔ state.phase = .failed

section Touch

variable {w : World} {s : ConvoyStatus} {work : String} {f : WorkState → WorkState}
  {g : String → CrewWorkState → CrewWorkState}

theorem touch_same : s.touch work f (fun _ state => state) = s.modifyWork work f := by
  have hcrew : (s.crewWork.modify work fun crew => crew.map fun _ state => state) = s.crewWork :=
    BTreeMap.modify_eq_self fun crew _ => BTreeMap.map_eq_self fun _ _ _ => rfl
  simp only [touch, modifyWork, hcrew]

theorem crewAt_touch (work' role : String) :
    (s.touch work f g).crewAt work' role =
      if work = work' then (s.crewAt work role).map (g role) else s.crewAt work' role := by
  simp only [touch, crewAt, ExtTreeMap.getElem?_modify,
    Std.compare_eq_iff_eq]
  by_cases h : work = work'
  · subst h
    rw [if_pos rfl, if_pos rfl]
    cases s.crewWork[work]? with
    | none => rfl
    | some crew => exact ExtTreeMap.getElem?_map
  · rw [if_neg h, if_neg h]

theorem anyFailed_touch (hg : KeepsFailures g) (work' : String) :
    (s.touch work f g).anyCrew work' .failed = s.anyCrew work' .failed := by
  refine anyCrew_congr fun role => ?_
  rw [crewAt_touch]
  split
  case isTrue h =>
    subst h
    cases s.crewAt work role with
    | none => rfl
    | some state =>
      exact decide_eq_decide.mpr (hg role state)
  case isFalse => rfl

theorem crewWork_touch_other {work' : String} (h : work' ≠ work) :
    (s.touch work f g).crewWork[work']? = s.crewWork[work']? := by
  simp only [touch, ExtTreeMap.getElem?_modify, Std.compare_eq_iff_eq]
  rw [if_neg fun heq => h heq.symm]

theorem isSome_crewAt_touch (work' role : String) :
    ((s.touch work f g).crewAt work' role).isSome = (s.crewAt work' role).isSome := by
  rw [crewAt_touch]
  split
  case isTrue h => rw [Option.isSome_map, h]
  case isFalse => rfl

theorem Fair.touch (h : Fair w s) (hg : KeepsFailures g) : Fair w (s.touch work f g) :=
  h.of_same (fun _ => ExtTreeMap.mem_modify.mp) (anyFailed_touch hg)

end Touch

theorem keepsFailures_id : KeepsFailures fun _ state => state := fun _ _ => Iff.rfl

theorem keepsFailures_interruptCrew (roles : BTreeSet String) (message : String) :
    KeepsFailures (interruptCrew roles message) := by
  intro role state
  unfold interruptCrew
  split
  case isTrue h => rcases h.2 with h | h | h <;> simp [h]
  case isFalse => rfl

theorem keepsFailures_launchCrew (startedAt : DateTime) (roles : BTreeSet String) :
    KeepsFailures (launchCrew startedAt roles) := by
  intro role state
  unfold launchCrew
  split
  case isTrue h => simp [h.1]
  case isFalse =>
    split
    case isTrue h => simp [h]
    case isFalse => rfl

theorem nextAttemptAt_retryable (previous : Option ControllerRetry) (now : DateTime) :
    (ControllerRetry.retryable previous now).nextAttemptAt.any (now < ·) = true := by
  have hdelay : ∀ attempts, 0 < provisioningRetryDelay attempts := by
    intro attempts
    unfold provisioningRetryDelay provisioningRetryInitial provisioningRetryMaximum
    refine lt_min ?_ (by norm_num)
    positivity
  simp only [ControllerRetry.retryable, ControllerRetry.nextAttemptAt, Option.any_some,
    decide_eq_true_eq]
  exact Int.lt_add_of_pos_right now (hdelay _)

/-! ### The moves go downhill -/

section Rank

variable {failed done stalls leaves settled failed' done' stalls' leaves' settled' : Bool}
  {phase : WorkPhase}

theorem rankOf_interrupted_lt (hlive : phase.isTerminal = false)
    (hnew : phase = .interrupted → settled = false) :
    rankOf .interrupted failed' done' stalls' false true <
      rankOf phase failed done stalls false settled := by
  cases phase with
  | interrupted => simp [rankOf, hnew rfl]
  | running | stalled => cases stalls <;> simp [rankOf]
  | pending | ready | launching => simp [rankOf]
  | complete | failed | cancelled | abandoned => cases hlive

theorem rankOf_failed_lt (h : phase ≠ .failed)
    (hcomplete : phase = .complete → failed = true) :
    rankOf .failed failed' done' stalls' leaves' settled' <
      rankOf phase failed done stalls leaves settled := by
  cases phase with
  | failed => exact absurd rfl h
  | complete => simp [rankOf, hcomplete rfl]
  | interrupted => cases leaves <;> simp [rankOf]
  | running | stalled => cases stalls <;> simp [rankOf]
  | pending | ready | launching | cancelled | abandoned => simp [rankOf]

/-- The crew of ensured work failed. -/
theorem rankOf_stalled_lt (h : phase ≠ .failed) (hnew : phase ≠ .stalled) :
    rankOf .stalled failed' done' true leaves' settled' <
      rankOf phase true done true true settled := by
  cases phase with
  | failed => exact absurd rfl h
  | stalled => exact absurd rfl hnew
  | interrupted => cases settled <;> simp [rankOf]
  | running | complete | pending | ready | launching | cancelled | abandoned => simp [rankOf]

theorem rankOf_nextWorkPhase_lt {anyStalled : Bool} {next : WorkPhase}
    (hnext : nextWorkPhase phase done anyStalled = some next)
    (hstalls : phase = .running → anyStalled = true → stalls = true)
    (hruns : phase = .stalled → anyStalled = false → stalls = false) :
    rankOf next false done stalls leaves settled' <
      rankOf phase false done stalls leaves settled := by
  unfold nextWorkPhase at hnext
  split at hnext
  case isTrue hdone =>
    obtain rfl := Option.some.inj hnext
    obtain ⟨hdone, hlive⟩ := Bool.and_eq_true_iff.mp hdone
    subst hdone
    cases phase with
    | interrupted => cases leaves <;> simp [rankOf]
    | running | stalled => cases stalls <;> simp [rankOf]
    | pending | ready | launching => simp [rankOf]
    | complete | failed | cancelled | abandoned => cases hlive
  case isFalse =>
    split at hnext
    case h_1 =>
      obtain rfl := Option.some.inj hnext
      simp [rankOf, hstalls rfl rfl]
    case h_2 =>
      obtain rfl := Option.some.inj hnext
      simp [rankOf, hruns rfl rfl]
    case h_3 =>
      obtain rfl := Option.some.inj hnext
      cases stalls <;> simp [rankOf]
    case h_4 => cases hnext

end Rank

section Moves

variable {names : Spelling} {w : World} {s : ConvoyStatus} {work : String} {state : WorkState}
  {patch : ConvoyStatusPatch}

/-- In a fair status an interruption by a vessel that decides over the work is where it stays. -/
theorem not_leavesInterruption (hfair : Fair w s) (hstate : s.work[work]? = some state)
    {vessel : Vessel} (hvessel : w.vesselOf work = some vessel)
    (hoverrules : vessel.overrules = true)
    (hready : vessel.phase ≠ some .ready) : leavesInterruption w s work = false := by
  have hcrew := fun hensured =>
    hfair.crew hensured work vessel (BTreeMap.mem_of_lookup hstate) hvessel hoverrules
  unfold leavesInterruption
  rw [hvessel]
  cases hensured : w.convoy.isEnsured with
  | false => simp [hready]
  | true => simp [hready, hcrew hensured]

variable {f : WorkState → WorkState} {g : String → CrewWorkState → CrewWorkState}
  {phase : WorkPhase}

/-- The rank of the work item after a move that keeps the failures of its crew. -/
theorem workRank_touch (hg : KeepsFailures g) (state' : WorkState) :
    workRank w (s.touch work f g) work state' =
      rankOf state'.phase (s.anyCrew work .failed) ((s.touch work f g).crewDone work)
        (endsStalled w (s.touch work f g) work) (leavesInterruption w s work)
        (interruptionSettled w work state') := by
  have hleaves : leavesInterruption w (s.touch work f g) work = leavesInterruption w s work := by
    simp only [leavesInterruption, anyFailed_touch hg]
  rw [workRank, anyFailed_touch hg, hleaves]

theorem workRank_modifyWork (state' : WorkState) :
    workRank w (s.modifyWork work f) work state' = workRank w s work state' :=
  workRank_congr rfl state'

theorem apply_workProvisioningRetry (hlive : s.phase.isTerminal = false) (retry : ControllerRetry)
    (message : String) :
    (ConvoyStatusPatch.workProvisioningRetry work retry message).apply names s =
      s.touch work (fun state => { state with
        provisioningRetry := some retry
        phase := .interrupted
        completionAuthority := .crewRollup
        message := some message
        finishedAt := none })
        (interruptCrew (s.workingRoles work) message) := by
  have hbody : (ConvoyStatusPatch.workProvisioningRetry work retry message).body names s =
      .ok ((s.workInterrupted work (s.workingRoles work) message).modifyWork work fun state =>
        { state with provisioningRetry := some retry }) :=
    congrArg Except.ok (workProvisioningRetry_eq hlive work retry message)
  refine (guarded_of_live hlive hbody hlive).trans ?_
  simp only [ConvoyStatus.workInterrupted, modifyWork, touch,
    BTreeMap.modify_modify]
  rfl

theorem WorkPhase.isTerminal_of_isAboard (h : phase.isAboard = true) :
    phase.isTerminal = false := by
  cases phase <;> first | rfl | cases h

theorem apply_markWorkFailed (hlive : s.phase.isTerminal = false)
    (hstate : s.work[work]? = some state) (haboard : state.phase.isAboard = true)
    (finishedAt : DateTime) (message : String) :
    (ConvoyStatusPatch.markWorkFailed work finishedAt message).apply names s =
      s.modifyWork work fun state => { state with
        phase := .failed
        finishedAt := some (state.finishedAt.getD finishedAt)
        message := some message } := by
  refine guarded_of_live hlive ?_ hlive
  change s.markWorkFailed work finishedAt message = _
  unfold ConvoyStatus.markWorkFailed
  rw [refuseIf_bind (by simp [hstate, WorkPhase.isTerminal_of_isAboard haboard])]
  rfl

/-- A work item on its way down: the patch changes it and its crew only, keeps the failures of the
crew and lowers the rank of the item. -/
def Downhill (names : Spelling) (w : World) (s : ConvoyStatus) (work : String) (state : WorkState)
    (patch : ConvoyStatusPatch) : Prop :=
  ∃ f g, patch.apply names s = s.touch work f g ∧ KeepsFailures g ∧
    workRank w (s.touch work f g) work (f state) < workRank w s work state

/-- A patch that leaves the crew alone. -/
theorem Downhill.of_modifyWork (happly : patch.apply names s = s.modifyWork work f)
    (hlt : workRank w s work (f state) < workRank w s work state) :
    Downhill names w s work state patch := by
  refine ⟨f, fun _ state => state, happly.trans touch_same.symm, keepsFailures_id, ?_⟩
  rw [touch_same, workRank_modifyWork]
  exact hlt

/-- An interruption by a vessel that decides over the work. -/
theorem Downhill.of_interrupted (happly : patch.apply names s = s.touch work f g)
    (hg : KeepsFailures g) (hphase : (f state).phase = .interrupted)
    (hleaves : leavesInterruption w s work = false)
    (hsettled : interruptionSettled w work (f state) = true)
    (hlive : state.phase.isTerminal = false)
    (hnew : state.phase = .interrupted → interruptionSettled w work state = false) :
    Downhill names w s work state patch := by
  refine ⟨f, g, happly, hg, ?_⟩
  rw [workRank_touch hg, workRank, hleaves, hsettled, hphase]
  exact rankOf_interrupted_lt hlive hnew

theorem downhill_crewFailed (hlive : s.phase.isTerminal = false) (hunfailed : state.phase ≠ .failed)
    {message : Option String} (hcrew : s.anyCrew work .failed = true)
    (hphase : phase = if w.convoy.isEnsured then .stalled else .failed)
    (hnew : state.phase ≠ phase) :
    Downhill names w s work state (.rollUpWork work phase w.now message) := by
  refine .of_modifyWork (guarded_of_live hlive rfl hlive) ?_
  unfold workRank
  rw [hcrew]
  cases hensured : w.convoy.isEnsured with
  | false =>
    rw [hensured, if_neg Bool.false_ne_true] at hphase
    subst hphase
    exact rankOf_failed_lt hunfailed fun _ => rfl
  | true =>
    rw [hensured, if_pos rfl] at hphase
    subst hphase
    have hstalls : endsStalled w s work = true := by simp [endsStalled, hensured, hcrew]
    have hleaves : leavesInterruption w s work = true := by
      simp [leavesInterruption, hensured, hcrew]
    rw [hstalls, hleaves]
    exact rankOf_stalled_lt hunfailed hnew

theorem downhill_rollUp (hlive : s.phase.isTerminal = false) {next : WorkPhase}
    (hcrew : s.anyCrew work .failed = false)
    (hpresent : ¬ (w.convoy.isEnsured = true ∧ state.phase = .stalled ∧ w.vesselOf work = none))
    (hnext : nextWorkPhase state.phase (s.crewDone work) (s.anyCrew work .stalled) = some next) :
    Downhill names w s work state (.rollUpWork work next w.now none) := by
  refine .of_modifyWork (guarded_of_live hlive rfl hlive) ?_
  unfold workRank
  rw [hcrew]
  refine rankOf_nextWorkPhase_lt hnext (fun _ hstalled => ?_) fun hphase hstalled => ?_
  · simp [endsStalled, hstalled]
  · simp only [endsStalled, hstalled, hcrew, Bool.false_or, Bool.and_eq_false_iff]
    by_contra hcontra
    obtain ⟨hensured, hmissing⟩ := not_or.mp hcontra
    exact hpresent ⟨by simpa using hensured, hphase, by simpa using hmissing⟩

/-- **A move of a work item goes downhill.** -/
theorem WorkMove.downhill (names : Spelling) (hmove : WorkMove w s work state patch)
    (hfair : Fair w s) (hlive : s.phase.isTerminal = false) (hstate : s.work[work]? = some state)
    (hunfailed : state.phase ≠ .failed) : Downhill names w s work state patch := by
  cases hmove with
  | @lost vessel roles hvessel hlost hlive' hnew =>
    have hsettled : ∀ state', interruptionSettled w work state' =
        decide (state'.message = some vessel.lostMessage) := by
      intro state'
      simp only [interruptionSettled, hvessel, if_pos hlost]
    refine .of_interrupted (guarded_of_live hlive rfl hlive)
      (keepsFailures_interruptCrew roles vessel.lostMessage) rfl
      (not_leavesInterruption hfair hstate hvessel (by simp [Vessel.overrules, hlost])
        (by simp [hlost])) ?_ hlive' fun hphase => ?_
    · rw [hsettled]
      exact decide_eq_true rfl
    · rw [hsettled]
      exact decide_eq_false fun hmessage => hnew ⟨hphase, hmessage⟩
  | failed hvessel hfailed hensured haboard =>
    refine .of_modifyWork (apply_markWorkFailed hlive hstate haboard _ _) ?_
    refine rankOf_failed_lt hunfailed fun hphase => ?_
    rw [hphase] at haboard
    cases haboard
  | @retry vessel retry hvessel hfailed hensured haboard hnew =>
    have hsettled : ∀ state', interruptionSettled w work state' =
        (state'.provisioningRetry.isSome && state'.message = some vessel.failureMessage) := by
      intro state'
      simp [interruptionSettled, hvessel, hfailed]
    refine .of_interrupted (apply_workProvisioningRetry hlive retry vessel.failureMessage)
      (keepsFailures_interruptCrew _ _) rfl
      (not_leavesInterruption hfair hstate hvessel (by simp [Vessel.overrules, hfailed])
        (by simp [hfailed])) ?_ (WorkPhase.isTerminal_of_isAboard haboard) fun _ => ?_
    · rw [hsettled]
      simp
    · rw [hsettled]
      simpa using hnew
  | launch hvessel hready hphase =>
    refine .of_modifyWork (guarded_of_live hlive rfl hlive) ?_
    simp [workRank, rankOf, hphase]
  | @run vessel roles hvessel hready hphase =>
    refine ⟨_, _, guarded_of_live hlive rfl hlive,
      keepsFailures_launchCrew w.now roles, ?_⟩
    have hleaves : leavesInterruption w s work = true := by
      simp [leavesInterruption, hvessel, hready]
    rw [workRank_touch (keepsFailures_launchCrew w.now roles), workRank, hleaves]
    generalize endsStalled w (s.touch work _ _) work = stalls
    rcases hphase with hphase | hphase <;> cases stalls <;> simp [rankOf, hphase]
    all_goals omega
  | @interrupt vessel roles message hvessel hinterrupted hstays hphase =>
    refine .of_interrupted (guarded_of_live hlive rfl hlive)
      (keepsFailures_interruptCrew roles message) rfl
      (not_leavesInterruption hfair hstate hvessel
        (by simp [Vessel.overrules, hinterrupted, hstays])
        (by simp [hinterrupted])) ?_ ?_ fun hinterruption => ?_
    · simp [interruptionSettled, hvessel, hinterrupted]
    · rcases hphase with hphase | hphase <;> rw [hphase] <;> rfl
    · rcases hphase with hphase | hphase <;> rw [hphase] at hinterruption <;> cases hinterruption
  | unobserved message hvessel hensured hphase =>
    refine .of_modifyWork (guarded_of_live hlive rfl hlive) ?_
    have hstalls : endsStalled w s work = true := by simp [endsStalled, hensured, hvessel]
    simp [workRank, rankOf, hphase, hstalls]
  | reserve message hvessel hensured hphase hdue =>
    refine ⟨_, _, apply_workProvisioningRetry hlive _ message, keepsFailures_interruptCrew _ _, ?_⟩
    have hbefore : interruptionSettled w work state = false := by
      simpa only [interruptionSettled, hvessel] using hdue
    rw [workRank_touch (keepsFailures_interruptCrew _ _), workRank, hphase, hbefore]
    have hafter : ∀ state',
        state'.provisioningRetry = some (.retryable state.provisioningRetry w.now) →
        interruptionSettled w work state' = true := by
      intro state' hretry
      simp only [interruptionSettled, hvessel, hretry, Option.any_some]
      exact nextAttemptAt_retryable state.provisioningRetry w.now
    rw [hafter _ rfl]
    simp [rankOf]
  | crewFailed phase message hcrew hphase hnew =>
    exact downhill_crewFailed hlive hunfailed hcrew hphase hnew
  | rollUp next hcrew hpresent hnext => exact downhill_rollUp hlive hcrew hpresent hnext

end Moves

/-! ### What is left to do -/

/-- The vessels whose evidence the status lacks. -/
def World.unseen (w : World) (s : ConvoyStatus) : Nat :=
  w.vessels.toList.countP fun entry => (unseenObservation s entry.2).isSome

namespace ConvoyStatus

def liveness (s : ConvoyStatus) : Nat := if s.phase.isTerminal then 0 else 1

def unbound (s : ConvoyStatus) : Nat := if s.observedWorkflowRef = none then 1 else 0

/-- The agents of the workflow. -/
def agents (snapshot : WorkflowSnapshot) : List (String × String) :=
  snapshot.vessels.flatMap fun vessel =>
    (vessel.crew.filter (·.source.isAgent)).map fun member => (vessel.name, member.role)

/-- The agents without a state. -/
def lackingCrew (s : ConvoyStatus) : Nat :=
  ((s.workflowSnapshot.map agents).getD []).countP fun agent => (s.crewAt agent.1 agent.2).isNone

/-- How far the phase is from what the work says. -/
def phaseLeft (s : ConvoyStatus) : Nat :=
  if s.anyInterrupted then if s.phase = .interrupted then 0 else 1
  else match s.phase with
    | .interrupted => 2
    | .pending => 1
    | _ => 0

/-- A landing that was not reported. -/
def unreported (s : ConvoyStatus) : Nat := if s.landingEntry.any (!·.eventEmitted) then 1 else 0

end ConvoyStatus

def World.workLeft (w : World) (s : ConvoyStatus) : Nat := BTreeMap.weight (workRank w s) s.work

/-- What is left to do, in the order of the rules. -/
def left (w : World) (s : ConvoyStatus) : ℕ ×ₗ ℕ ×ₗ ℕ ×ₗ ℕ ×ₗ ℕ ×ₗ ℕ :=
  toLex (w.unseen s, toLex (s.liveness, toLex (s.unbound, toLex (s.lackingCrew,
    toLex (w.workLeft s, s.phaseLeft)))))

section Left

variable {w : World} {s s' : ConvoyStatus}

theorem unseenObservation_congr {vessel : Vessel}
    (h : s'.environmentObservations[vessel.spec.vesselName]? =
      s.environmentObservations[vessel.spec.vesselName]?) :
    unseenObservation s' vessel = unseenObservation s vessel := by
  simp only [unseenObservation, h]

theorem unseen_congr (h : s'.environmentObservations = s.environmentObservations) :
    w.unseen s' = w.unseen s := by
  refine congrArg (fun p => List.countP p w.vessels.toList) (funext fun entry => ?_)
  have hslot : s'.environmentObservations[entry.2.spec.vesselName]? =
      s.environmentObservations[entry.2.spec.vesselName]? := by rw [h]
  rw [unseenObservation_congr hslot]

theorem left_lt_of_unseen (h : w.unseen s' < w.unseen s) : left w s' < left w s :=
  Prod.Lex.toLex_lt_toLex.mpr (.inl h)

theorem left_lt_of_unseen_eq (henv : s'.environmentObservations = s.environmentObservations)
    (h : toLex (s'.liveness, toLex (s'.unbound, toLex (s'.lackingCrew,
        toLex (w.workLeft s', s'.phaseLeft)))) <
      toLex (s.liveness, toLex (s.unbound, toLex (s.lackingCrew,
        toLex (w.workLeft s, s.phaseLeft))))) : left w s' < left w s :=
  Prod.Lex.toLex_lt_toLex.mpr (.inr ⟨unseen_congr henv, h⟩)

/-- The convoy came to its end. -/
theorem left_lt_of_terminal (henv : s'.environmentObservations = s.environmentObservations)
    (hs : s.phase.isTerminal = false) (hs' : s'.phase.isTerminal = true) :
    left w s' < left w s := by
  refine left_lt_of_unseen_eq henv (Prod.Lex.toLex_lt_toLex.mpr (.inl ?_))
  simp [liveness, hs, hs']

theorem liveness_congr (hs : s.phase.isTerminal = false) (hs' : s'.phase.isTerminal = false) :
    s'.liveness = s.liveness := by
  simp only [liveness, hs, hs']

section Live

variable (henv : s'.environmentObservations = s.environmentObservations)
  (hs : s.phase.isTerminal = false) (hs' : s'.phase.isTerminal = false)

include henv hs hs'

/-- The workflow was bound. -/
theorem left_lt_of_bound (href : s.observedWorkflowRef = none)
    (href' : s'.observedWorkflowRef ≠ none) : left w s' < left w s := by
  refine left_lt_of_unseen_eq henv (Prod.Lex.toLex_lt_toLex.mpr (.inr ⟨liveness_congr hs hs', ?_⟩))
  refine Prod.Lex.toLex_lt_toLex.mpr (.inl ?_)
  simp [unbound, href, href']

theorem left_lt_of_unbound_eq (href : s'.observedWorkflowRef = s.observedWorkflowRef)
    (h : toLex (s'.lackingCrew, toLex (w.workLeft s', s'.phaseLeft)) <
      toLex (s.lackingCrew, toLex (w.workLeft s, s.phaseLeft))) : left w s' < left w s := by
  refine left_lt_of_unseen_eq henv (Prod.Lex.toLex_lt_toLex.mpr (.inr ⟨liveness_congr hs hs', ?_⟩))
  refine Prod.Lex.toLex_lt_toLex.mpr (.inr ⟨?_, h⟩)
  simp only [unbound, href]

omit henv hs hs' in
theorem lackingCrew_congr (hsnapshot : s'.workflowSnapshot = s.workflowSnapshot)
    (hcrew : ∀ work role, (s'.crewAt work role).isSome = (s.crewAt work role).isSome) :
    s'.lackingCrew = s.lackingCrew := by
  unfold lackingCrew
  rw [hsnapshot]
  refine congrArg (fun p => List.countP p _) (funext fun agent => ?_)
  have h := hcrew agent.1 agent.2
  cases hs' : s'.crewAt agent.1 agent.2 <;> cases hs : s.crewAt agent.1 agent.2 <;>
    first | rfl | (rw [hs, hs'] at h; cases h)

/-- The work went downhill. -/
theorem left_lt_of_work (href : s'.observedWorkflowRef = s.observedWorkflowRef)
    (hsnapshot : s'.workflowSnapshot = s.workflowSnapshot)
    (hcrew : ∀ work role, (s'.crewAt work role).isSome = (s.crewAt work role).isSome)
    (h : w.workLeft s' < w.workLeft s) : left w s' < left w s := by
  refine left_lt_of_unbound_eq henv hs hs' href (Prod.Lex.toLex_lt_toLex.mpr (.inr ?_))
  exact ⟨lackingCrew_congr hsnapshot hcrew, Prod.Lex.toLex_lt_toLex.mpr (.inl h)⟩

end Live

/-- The phase of the convoy followed its work. -/
theorem left_lt_of_phase {phase : ConvoyPhase} {startedAt finishedAt : Option DateTime}
    (hs : s.phase.isTerminal = false) (hphase : phase.isTerminal = false)
    (h : phaseLeft { s with phase, startedAt, finishedAt } < s.phaseLeft) :
    left w { s with phase, startedAt, finishedAt } < left w s := by
  refine left_lt_of_unbound_eq rfl hs hphase rfl (Prod.Lex.toLex_lt_toLex.mpr (.inr ⟨rfl, ?_⟩))
  refine Prod.Lex.toLex_lt_toLex.mpr (.inr ⟨?_, h⟩)
  exact BTreeMap.weight_congr fun work state _ => workRank_congr rfl state

end Left

/-! ### The rules leave less -/

/-- What was merged adds nothing to what it was merged into. -/
theorem EnvironmentRuntimeObservation.merge_merge_right
    (self observation : EnvironmentRuntimeObservation) :
    self.merge (self.merge observation) = self.merge observation := by
  by_cases h : (differ self.containerId observation.containerId ||
      differ self.startedAt observation.startedAt) = true
  · have hmerge : self.merge observation = observation := by rw [merge, if_pos h]
    rw [hmerge, hmerge]
  · have hsame : ∀ x y, differ x y = false → differ x (y.or x) = false := by
      intro x y hxy
      cases y with
      | none => exact differ_self x
      | some y => exact hxy
    have hcontainer := hsame self.containerId observation.containerId (by simp_all)
    have hstarted := hsame self.startedAt observation.startedAt (by simp_all)
    rw [merge.eq_def self observation, if_neg h, merge,
      if_neg (by simp [hcontainer, hstarted])]
    simp only [Option.or_assoc, Option.or_self]
    cases observation.memoryUsageBytes <;> simp

theorem clearTerminalStall_eq (s : ConvoyStatus) :
    ∃ stalled, s.clearTerminalStall = { s with stalled } := by
  unfold clearTerminalStall
  split
  case isTrue => exact ⟨none, rfl⟩
  case isFalse => exact ⟨s.stalled, rfl⟩

section Rules

variable {names : Spelling} {w : World} {s : ConvoyStatus} {name : String}
  {observation : EnvironmentRuntimeObservation} {patch : ConvoyStatusPatch} {vessel : Vessel}

theorem unseenObservation_eq_some :
    unseenObservation s vessel = some (name, observation) ↔
      ∃ observed, (vessel.status >>= (·.runtimeObservation)) = some observed ∧
        name = vessel.spec.vesselName ∧
        observation = (s.environmentObservations[name]?.getD {}).merge observed ∧
        s.environmentObservations[name]? ≠ some observation := by
  unfold unseenObservation
  cases hobserved : (vessel.status >>= (·.runtimeObservation)) with
  | none => simp
  | some observed =>
    simp only [Option.bind_eq_bind, Option.bind_some]
    constructor
    · intro h
      split at h
      case isTrue hnew =>
        cases h
        exact ⟨observed, rfl, rfl, rfl, hnew⟩
      case isFalse => cases h
    · rintro ⟨_, heq, rfl, rfl, hnew⟩
      cases heq
      rw [if_pos hnew]

/-- One vessel's evidence is taken over, and no other vessel's is lost by it. -/
theorem unseen_observe (hfair : Fair w s) {resource : String}
    (hvessel : w.vessels[resource]? = some vessel)
    (hunseen : unseenObservation s vessel = some (name, observation)) :
    w.unseen (s.observeEnvironment name observation) < w.unseen s := by
  obtain ⟨observed, hobserved, hname, hobservation, -⟩ := unseenObservation_eq_some.mp hunseen
  have hslot : (s.observeEnvironment name observation).environmentObservations[name]? =
      some observation := by
    simp only [ConvoyStatus.observeEnvironment, ExtTreeMap.getElem?_alter_self]
    rw [hobservation, EnvironmentRuntimeObservation.merge_merge_right]
  refine countP_lt_countP (fun entry hentry hstill => ?_)
    (ExtTreeMap.mem_toList_iff_getElem?_eq_some.mpr hvessel) (by simp [hunseen]) ?_
  · -- Another vessel with evidence has another slot.
    obtain ⟨⟨name', observation'⟩, hunseen'⟩ := Option.isSome_iff_exists.mp hstill
    obtain ⟨observed', hobserved', hname', -, -⟩ := unseenObservation_eq_some.mp hunseen'
    by_cases hsame : entry.2.spec.vesselName = vessel.spec.vesselName
    · have hkey := hfair.slots entry.1 resource entry.2 vessel
        (ExtTreeMap.mem_toList_iff_getElem?_eq_some.mp hentry) hvessel
        (by simp [Vessel.isObserved, hobserved']) (by simp [Vessel.isObserved, hobserved]) hsame
      have hentry' := ExtTreeMap.mem_toList_iff_getElem?_eq_some.mp hentry
      rw [hkey, hvessel] at hentry'
      rw [← Option.some.inj hentry', hunseen]
      rfl
    · have hother : (s.observeEnvironment name
          observation).environmentObservations[entry.2.spec.vesselName]? =
          s.environmentObservations[entry.2.spec.vesselName]? := by
        simp only [ConvoyStatus.observeEnvironment, ExtTreeMap.getElem?_alter,
          Std.compare_eq_iff_eq, hname]
        rw [if_neg fun heq => hsame heq.symm]
      rw [unseenObservation_congr hother] at hstill
      exact hstill
  · rw [Option.isSome_eq_false_iff, Option.isNone_iff_eq_none, Option.eq_none_iff_forall_ne_some]
    rintro ⟨name', observation'⟩ hagain
    obtain ⟨observed', hobserved', rfl, hobservation', hnew⟩ := unseenObservation_eq_some.mp hagain
    rw [hobserved] at hobserved'
    cases hobserved'
    rw [← hname, hslot] at hobservation' hnew
    refine hnew (congrArg some ?_)
    rw [hobservation', hobservation]
    exact (EnvironmentRuntimeObservation.merge_merge _ _).symm

/-! Crew members that had no state -/

theorem lookup_missingCrew {vessel : VesselRequirement} {role : String} {state : CrewWorkState}
    (h : (missingCrew s vessel)[role]? = some state) :
    (∃ member ∈ vessel.crew, member.source.isAgent = true ∧ member.role = role) ∧
      s.crewAt vessel.name role = none ∧ state.phase ≠ .failed := by
  obtain ⟨⟨member, index⟩, hmember, heq⟩ := List.mem_map.mp (mem_of_lookup_ofList h)
  obtain ⟨hmem, hmissing⟩ := List.mem_filter.mp hmember
  obtain ⟨hagent, habsent⟩ := Bool.and_eq_true_iff.mp hmissing
  have hrole : member.role = role ∧ state.phase ≠ .failed := by
    split at heq <;> cases heq <;> exact ⟨rfl, by simp⟩
  refine ⟨⟨member, List.fst_mem_of_mem_zipIdx hmem, hagent, hrole.1⟩, ?_, hrole.2⟩
  rw [hrole.1] at habsent
  unfold crewAt
  cases hcrew : s.crewWork[vessel.name]? with
  | none => rfl
  | some crew =>
    rw [hcrew, Option.all_some, Bool.not_eq_true'] at habsent
    exact ExtTreeMap.getElem?_eq_none_of_contains_eq_false habsent

theorem crewAt_backfill (missing : BTreeMap String (BTreeMap String CrewWorkState))
    (overrides : BTreeSet String) (work role : String) :
    (s.backfillCrewWork missing overrides).crewAt work role =
      (s.crewAt work role).or (missing[work]? >>= fun crew => crew[role]?) := by
  have hother : ∀ (all : BTreeMap String (BTreeMap String CrewWorkState))
      (entry : String × BTreeMap String CrewWorkState) (k : String), entry.1 ≠ k →
      (all.alter entry.1 fun crew => some (entry.2 ∪ crew.getD ∅))[k]? = all[k]? := by
    intro all entry k hk
    rw [ExtTreeMap.getElem?_alter, if_neg (by simpa using hk)]
  unfold crewAt ConvoyStatus.backfillCrewWork
  cases hmissing : missing[work]? with
  | none =>
    rw [view_foldl_other (fun all k => all[k]?) hother]
    · simp
    · intro entry hentry heq
      rw [← heq, ExtTreeMap.mem_toList_iff_getElem?_eq_some.mp hentry] at hmissing
      cases hmissing
  | some crew =>
    have hmem := ExtTreeMap.mem_toList_iff_getElem?_eq_some.mpr hmissing
    rw [view_foldl_key (f := fun entry x => some (entry.2 ∪ x.getD ∅))
      (fun all k => all[k]?) (fun all entry => ExtTreeMap.getElem?_alter_self) hother
      (nodup_keys_toList missing) hmem s.crewWork]
    simp only [Option.bind_eq_bind, Option.bind_some, ExtTreeMap.getElem?_union]
    cases s.crewWork[work]? <;> simp

theorem lookup_backfill {lacking : List VesselRequirement} {work : String}
    {crew : BTreeMap String CrewWorkState}
    (h : (ExtTreeMap.ofList (lacking.map fun vessel => (vessel.name, missingCrew s vessel))
      compare)[work]? = some crew) :
    ∃ vessel ∈ lacking, vessel.name = work ∧ crew = missingCrew s vessel := by
  obtain ⟨vessel, hvessel, heq⟩ := List.mem_map.mp (mem_of_lookup_ofList h)
  cases heq
  exact ⟨vessel, hvessel, rfl, rfl⟩

section Backfill

variable {snapshot : WorkflowSnapshot} {lacking : List VesselRequirement}
  (overrides : BTreeSet String)

/-- The crew states that a pass adds. -/
def backfilled (s : ConvoyStatus) (lacking : List VesselRequirement) :
    BTreeMap String (BTreeMap String CrewWorkState) :=
  .ofList (lacking.map fun vessel => (vessel.name, missingCrew s vessel)) compare

theorem anyFailed_backfill (work : String) :
    (s.backfillCrewWork (backfilled s lacking) overrides).anyCrew work .failed =
      s.anyCrew work .failed := by
  refine anyCrew_congr fun role => ?_
  rw [crewAt_backfill]
  cases hcrew : s.crewAt work role with
  | some state => rfl
  | none =>
    cases hadded : (backfilled s lacking)[work]? >>= fun crew => crew[role]? with
    | none => rfl
    | some state =>
      obtain ⟨crew, hlookup, hstate⟩ := Option.bind_eq_some_iff.mp hadded
      obtain ⟨vessel, -, -, rfl⟩ := lookup_backfill hlookup
      simpa using (lookup_missingCrew hstate).2.2

theorem lackingCrew_backfill (hsnapshot : s.workflowSnapshot = some snapshot)
    (hlacking : lacking = snapshot.vessels.filter fun vessel => !(missingCrew s vessel).isEmpty)
    (hsome : lacking ≠ []) :
    (s.backfillCrewWork (backfilled s lacking) overrides).lackingCrew < s.lackingCrew := by
  -- Some requirement has its missing agents added; one of them is no longer missing.
  have hkey : ∃ (work : String) (crew : BTreeMap String CrewWorkState),
      (backfilled s lacking)[work]? = some crew := by
    obtain ⟨vessel, hvessel⟩ := List.exists_mem_of_ne_nil lacking hsome
    have hmem : vessel.name ∈ backfilled s lacking := by
      unfold backfilled
      rw [ExtTreeMap.mem_ofList]
      simp only [List.map_map, List.contains_iff_mem, List.mem_map]
      exact ⟨vessel, hvessel, rfl⟩
    exact ⟨vessel.name, _, ExtTreeMap.getElem?_eq_some_getElem hmem⟩
  obtain ⟨work, crew, hlookup⟩ := hkey
  obtain ⟨vessel, hvessel, rfl, rfl⟩ := lookup_backfill hlookup
  rw [hlacking] at hvessel
  obtain ⟨hvessel, hmissing⟩ := List.mem_filter.mp hvessel
  obtain ⟨role, hrole⟩ : ∃ role, role ∈ missingCrew s vessel :=
    exists_mem_of_isEmpty (by simpa using hmissing)
  have hstate := ExtTreeMap.getElem?_eq_some_getElem hrole
  obtain ⟨⟨member, hmember, hagent, rfl⟩, habsent, -⟩ := lookup_missingCrew hstate
  unfold lackingCrew
  have hsame : (s.backfillCrewWork (backfilled s lacking) overrides).workflowSnapshot =
      s.workflowSnapshot := rfl
  rw [hsame, hsnapshot]
  refine countP_lt_countP (a := (vessel.name, member.role)) (fun agent _ hnone => ?_) ?_ ?_ ?_
  · rw [crewAt_backfill] at hnone
    cases hbefore : s.crewAt agent.1 agent.2 with
    | none => rfl
    | some state =>
      rw [hbefore] at hnone
      cases hnone
  · refine List.mem_flatMap.mpr ⟨vessel, hvessel, List.mem_map.mpr ⟨member, ?_, rfl⟩⟩
    exact List.mem_filter.mpr ⟨hmember, hagent⟩
  · simp [habsent]
  · rw [crewAt_backfill, habsent, hlookup]
    simp [hstate]

end Backfill

/-! Bootstrap -/

theorem apply_bootstrap (names : Spelling) (hlive : s.phase.isTerminal = false)
    (snapshot : WorkflowSnapshot) (ref : String) (workflows : BTreeMap String String)
    (work : BTreeMap String WorkState) (crewWork : BTreeMap String (BTreeMap String CrewWorkState))
    (dispatch : List DispatchPromise) :
    ∃ provisioning promises startedAt,
      (ConvoyStatusPatch.bootstrap snapshot ref workflows work crewWork dispatch .pending
        none).apply names s =
        { s with
          provisioning
          workflowSnapshot := some snapshot
          observedWorkflowRef := some ref
          observedWorkflows := some workflows
          work, crewWork, promises, phase := .pending, startedAt } := by
  obtain ⟨⟨promises, hsame⟩, -⟩ := (admittedDeclarations_seedPromises names
    (s := { s with
      provisioning := some (s.provisioning.getD .notStarted)
      workflowSnapshot := some snapshot
      observedWorkflowRef := some ref
      observedWorkflows := some workflows
      work, crewWork }) hlive dispatch).1
  have happly : (ConvoyStatusPatch.bootstrap snapshot ref workflows work crewWork dispatch .pending
      none).apply names s =
      s.bootstrap names snapshot ref workflows work crewWork dispatch .pending none :=
    guarded_of_live hlive rfl rfl
  rw [happly, ConvoyStatus.bootstrap, hsame]
  exact ⟨_, promises, _, rfl⟩

theorem anyFailed_fresh {t : ConvoyStatus} {vessels : List VesselRequirement}
    (h : t.crewWork = .ofList (vessels.map fun vessel =>
      (vessel.name, freshCrew vessel.crew)) compare) (work : String) :
    t.anyCrew work .failed = false := by
  rw [Bool.eq_false_iff, ne_eq, anyCrew_iff]
  rintro ⟨role, state, hstate, hfailed⟩
  obtain ⟨crew, hcrew, hstate⟩ := Option.bind_eq_some_iff.mp hstate
  rw [h] at hcrew
  obtain ⟨vessel, -, heq⟩ := List.mem_map.mp (mem_of_lookup_ofList hcrew)
  cases heq
  obtain ⟨member, -, heq⟩ := List.mem_map.mp (mem_of_lookup_ofList hstate)
  cases heq
  cases hfailed

/-! Readiness -/

theorem workLeft_ready {snapshot : WorkflowSnapshot} {ready : BTreeMap String DateTime}
    (hready : ready = .ofList ((snapshot.vessels.filter (becomesReady s)).map fun vessel =>
      (vessel.name, w.now)) compare) (hsome : ready.isEmpty = false) :
    w.workLeft (s.advanceWorkToReady ready) < w.workLeft s := by
  -- Every item that becomes ready was pending.
  have hpending : ∀ (work : String) (at_ : DateTime), ready[work]? = some at_ →
      ∃ state, s.work[work]? = some state ∧ state.phase = .pending := by
    intro work at_ hlookup
    rw [hready] at hlookup
    obtain ⟨vessel, hvessel, heq⟩ := List.mem_map.mp (mem_of_lookup_ofList hlookup)
    cases heq
    have hbecomes := (List.mem_filter.mp hvessel).2
    obtain ⟨state, hstate, hphase⟩ :=
      (Option.any_eq_true _ _).mp (Bool.and_eq_true_iff.mp hbecomes).1
    exact ⟨state, hstate, by simpa using hphase⟩
  have hrank : ∀ work state, workRank w (s.advanceWorkToReady ready) work state =
      workRank w s work state := fun work state => workRank_congr rfl state
  have hstep : ∀ work state at_,
      s.work[work]? = some state → ready[work]? = some at_ →
      workRank w s work { state with phase := .ready, readyAt := some (state.readyAt.getD at_) } <
        workRank w s work state := by
    intro work state at_ hstate hlookup
    obtain ⟨state', hstate', hphase⟩ := hpending work at_ hlookup
    rw [hstate] at hstate'
    cases hstate'
    simp [workRank, rankOf, hphase]
  obtain ⟨work, hwork⟩ := exists_mem_of_isEmpty hsome
  have hlookup := ExtTreeMap.getElem?_eq_some_getElem hwork
  obtain ⟨state, hstate, -⟩ := hpending work _ hlookup
  refine BTreeMap.weight_map_lt (fun work state hstate => ?_) hstate ?_
  · refine (hrank _ _).trans_le ?_
    split
    case h_1 at_ hlookup => exact (hstep work state at_ hstate hlookup).le
    case h_2 => exact le_rfl
  · refine (hrank _ _).trans_lt ?_
    rw [hlookup]
    exact hstep work state _ hstate hlookup

/-! All rules -/

/-- The body of a patch that ends the convoy, on a live status. -/
theorem ended {r : ConvoyStatus} (hfair : Fair w s) (hlive : s.phase.isTerminal = false)
    (hbody : patch.body names s = .ok r)
    (henv : r.environmentObservations = s.environmentObservations)
    (hphase : r.phase.isTerminal = true) (hwork : ∀ work, work ∈ r.work → work ∈ s.work)
    (hcrew : r.crewWork = s.crewWork) :
    left w (patch.apply names s) < left w s ∧ Fair w (patch.apply names s) := by
  have happly : patch.apply names s = { r with stalled := none } := by
    unfold ConvoyStatusPatch.apply guarded
    rw [hlive, Bool.false_and, if_neg Bool.false_ne_true, hbody]
    simp only [clearTerminalStall, if_pos hphase]
  rw [happly]
  refine ⟨left_lt_of_terminal henv hlive hphase, hfair.of_same hwork fun work => ?_⟩
  simp only [anyCrew, hcrew]

theorem phase_left {phase : ConvoyPhase} {startedAt : Option DateTime} (hfair : Fair w s)
    (hlive : s.phase.isTerminal = false) (hphase : phase = .interrupted ∨ phase = .active)
    (h : ∀ startedAt finishedAt,
      phaseLeft { s with phase, startedAt, finishedAt } < s.phaseLeft) :
    left w ((ConvoyStatusPatch.rollUpPhase phase startedAt none).apply names s) < left w s ∧
      Fair w ((ConvoyStatusPatch.rollUpPhase phase startedAt none).apply names s) := by
  have hnew : phase.isTerminal = false := by rcases hphase with rfl | rfl <;> rfl
  have happly : ∃ startedAt' finishedAt',
      (ConvoyStatusPatch.rollUpPhase phase startedAt none).apply names s =
        { s with phase, startedAt := startedAt', finishedAt := finishedAt' } := by
    refine ⟨s.startedAt.or startedAt, if phase = .active then none else s.finishedAt, ?_⟩
    refine guarded_of_live hlive ?_ hnew
    change Except.ok (s.rollUpPhase phase startedAt none) = _
    unfold ConvoyStatus.rollUpPhase
    rw [if_neg (by simp [hnew])]
  obtain ⟨startedAt', finishedAt', happly⟩ := happly
  rw [happly]
  exact ⟨left_lt_of_phase hlive hnew (h startedAt' finishedAt'),
    hfair.of_same (fun _ hwork => hwork) fun _ => rfl⟩

/-- **Every patch of a pass leaves less to do.** -/
theorem Pass.left_lt (names : Spelling) (hpass : Pass w s patch) (hfair : Fair w s) :
    left w (patch.apply names s) < left w s ∧ Fair w (patch.apply names s) := by
  cases hpass with
  | @observe resource vessel name observation hvessel hunseen =>
    obtain ⟨stalled, hstalled⟩ := clearTerminalStall_eq (s.observeEnvironment name observation)
    rw [ConvoyStatusPatch.apply_of_exempt rfl rfl, hstalled]
    refine ⟨left_lt_of_unseen ?_, hfair.of_same (fun _ hwork => hwork) fun _ => rfl⟩
    exact (unseen_congr rfl).trans_lt
      (unseen_observe hfair hvessel hunseen)
  | failInit message hlive =>
    exact ended hfair hlive rfl rfl rfl (fun _ hwork => hwork) rfl
  | failConvoy cancelled message hlive =>
    refine ended hfair hlive rfl rfl rfl (fun work hwork => ?_) rfl
    simpa [ConvoyStatus.failConvoy, clearOperatorPendingBrief] using hwork
  | @settle exitDisposition mismatches hphase hcomplete =>
    have hlive : s.phase.isTerminal = false := by rw [hphase]; rfl
    have hkept : ¬ (s.allPromises.any (!·.state.terminal)) = true := by
      simp only [allComplete, Bool.and_eq_true, List.all_eq_true] at hcomplete
      simpa using hcomplete.2
    obtain ⟨landed, hsettle, henv, hlanded, hwork, hcrew⟩ : ∃ landed,
        (ConvoyStatusPatch.settle w.conditions.settlementEvidence exitDisposition mismatches
          w.now).body names s = .ok landed ∧
        landed.environmentObservations = s.environmentObservations ∧ landed.phase = .landed ∧
        landed.work = s.work ∧ landed.crewWork = s.crewWork := by
      simp only [ConvoyStatusPatch.body, ConvoyStatus.settle]
      rw [refuseIf_bind hkept]
      exact ⟨_, rfl, rfl, rfl, rfl, rfl⟩
    exact ended hfair hlive hsettle henv (by rw [hlanded]; rfl)
      (fun _ hmem => by rw [hwork] at hmem; exact hmem) hcrew
  | @bootstrap template snapshot workflows hlive href =>
    obtain ⟨provisioning, promises, startedAt, happly⟩ := apply_bootstrap names hlive snapshot
      w.convoy.workflowRef workflows
      (.ofList (template.spec.vessels.map fun vessel => (vessel.name, { phase := .pending }))
        compare)
      (.ofList (template.spec.vessels.map fun vessel =>
        (vessel.name, freshCrew vessel.crew)) compare) w.convoy.promises
    rw [happly]
    refine ⟨left_lt_of_bound rfl hlive rfl href (by simp), hfair.slots, fun _ work _ _ _ _ => ?_⟩
    exact anyFailed_fresh rfl work
  | @backfill snapshot lacking overrides hlive hsnapshot hlacking hsome =>
    have happly : (ConvoyStatusPatch.backfillCrewWork (backfilled s lacking) overrides).apply
        names s = s.backfillCrewWork (backfilled s lacking) overrides :=
      guarded_of_live hlive rfl hlive
    unfold backfilled at happly
    rw [happly]
    refine ⟨left_lt_of_unbound_eq rfl hlive hlive rfl (Prod.Lex.toLex_lt_toLex.mpr (.inl ?_)),
      hfair.of_same (fun work hwork => ?_) fun work => anyFailed_backfill overrides work⟩
    · exact lackingCrew_backfill overrides hsnapshot hlacking hsome
    · simpa [ConvoyStatus.backfillCrewWork] using hwork
  | work hlive hstate hunfailed hmove =>
    obtain ⟨f, g, happly, hg, hlt⟩ := hmove.downhill names hfair hlive hstate hunfailed
    rw [happly]
    refine ⟨left_lt_of_work rfl hlive hlive rfl rfl isSome_crewAt_touch ?_, hfair.touch hg⟩
    exact BTreeMap.weight_modify_lt hstate hlt fun work' state' hne =>
      workRank_congr (crewWork_touch_other hne) state'
  | @ready snapshot ready hlive hready hsome =>
    have happly : (ConvoyStatusPatch.advanceWorkToReady ready).apply names s =
        s.advanceWorkToReady ready := guarded_of_live hlive rfl hlive
    rw [happly]
    refine ⟨left_lt_of_work rfl hlive hlive rfl rfl (fun _ _ => rfl) (workLeft_ready hready hsome),
      hfair.of_same (fun work hwork => ?_) fun _ => rfl⟩
    simpa [ConvoyStatus.advanceWorkToReady] using hwork
  | interrupted hlive hsome hphase =>
    refine phase_left hfair hlive (.inl rfl) fun startedAt finishedAt => ?_
    have hsome' : anyInterrupted
        { s with phase := .interrupted, startedAt, finishedAt } = true := hsome
    simp [phaseLeft, hsome, hsome', hphase]
  | resumed hnone hphase | started hnone hphase =>
    refine phase_left hfair (by rw [hphase]; rfl) (.inr rfl) fun startedAt finishedAt => ?_
    have hnone' : anyInterrupted
        { s with phase := .active, startedAt, finishedAt } = false := hnone
    simp [phaseLeft, hnone, hnone', hphase]

end Rules

/-! ### Passes, one after the other -/

/-- A pass whose patch is written at once; without a patch there is no step. -/
def passStep (texts : Texts) (w : World) (s : ConvoyStatus) : Option ConvoyStatus :=
  (reconcileInternal texts w s).patch.map fun patch => patch.apply texts.toSpelling s

section Report

variable {names : Spelling} {w : World} {s : ConvoyStatus}

theorem left_reported : left w s.markEventEmitted.clearTerminalStall = left w s := by
  obtain ⟨stalled, heq⟩ := clearTerminalStall_eq s.markEventEmitted
  rw [heq]
  rfl

theorem Fair.reported (h : Fair w s) : Fair w s.markEventEmitted.clearTerminalStall := by
  obtain ⟨stalled, heq⟩ := clearTerminalStall_eq s.markEventEmitted
  rw [heq]
  exact h.of_same (fun _ hwork => hwork) fun _ => rfl

theorem unreported_reported : s.markEventEmitted.clearTerminalStall.unreported = 0 := by
  obtain ⟨stalled, heq⟩ := clearTerminalStall_eq s.markEventEmitted
  rw [heq, unreported, markEventEmitted]
  cases s.landingEntry <;> simp

end Report

/-- One pass leaves less to do, or the same with its landing reported. -/
theorem passStep_lt {texts : Texts} {w : World} {s s' : ConvoyStatus} (hfair : Fair w s)
    (h : passStep texts w s = some s') :
    Fair w s' ∧ toLex (left w s', s'.unreported) < toLex (left w s, s.unreported) := by
  obtain ⟨patch, hpatch, rfl⟩ := Option.map_eq_some_iff.mp h
  rcases reconcileInternal_patch hpatch with hpass | ⟨hunreported, rfl | ⟨transition, rfl, hpass⟩⟩
  · obtain ⟨hlt, hfair'⟩ := hpass.left_lt texts.toSpelling hfair
    exact ⟨hfair', Prod.Lex.toLex_lt_toLex.mpr (.inl hlt)⟩
  · rw [ConvoyStatusPatch.apply_of_exempt rfl (ConvoyStatusPatch.body.eq_def ..)]
    refine ⟨hfair.reported, Prod.Lex.toLex_lt_toLex.mpr (.inr ⟨left_reported, ?_⟩)⟩
    rw [unreported_reported, unreported, if_pos hunreported]
    exact Nat.one_pos
  · obtain ⟨hlt, hfair'⟩ := hpass.left_lt texts.toSpelling hfair
    rw [ConvoyStatusPatch.apply_landingEvent]
    exact ⟨hfair'.reported, Prod.Lex.toLex_lt_toLex.mpr (.inl (left_reported.trans_lt hlt))⟩

/-- **Passes come to rest.**  For every convoy, status, template, vessels, checkouts, conditions and
time: after finitely many passes, each followed by the write of its patch, a pass returns no patch;
provided no two vessels with evidence stand for one vessel name and, in an ensured convoy, no work
item whose vessel is lost, failed or interrupted has a crew member that failed. -/
theorem reconcile_rests (texts : Texts) {w : World} {s : ConvoyStatus} (hfair : Fair w s) :
    ∃ n, (reconcileInternal texts w (repeats (passStep texts w) n s)).patch = none := by
  obtain ⟨n, hn⟩ := exists_rest (passStep texts w)
    (fun s => toLex (left w s, s.unreported)) (fun s s' => passStep_lt) s hfair
  exact ⟨n, Option.map_eq_none_iff.mp hn⟩

/-! ### A vessel that was lost -/

section Lost

def lostVesselObject : Vessel where
  name := "fix-build"
  deletionTimestamp := none
  spec := ⟨"fix", "build", "docker", ∅⟩
  status := some { phase := .lost, message := some "gone" }

/-- An ensured convoy whose one vessel is lost. -/
def lostWorld : World where
  convoy :=
    { name := "fix", namespace_ := "crew"
      annotations := .ofList [(ensuredFromAnnotationKey, "standing")] compare
      workflowRef := "solo", inputs := ∅, placementPolicy := none, repositories := []
      adoptedCheckoutRefs := ∅, promises := [] }
  template := none
  vessels := .ofList [("fix-build", lostVesselObject)] compare
  checkouts := ∅
  conditions := ⟨none, false, none⟩
  now := 100

def soloWorkflow : WorkflowSnapshot where
  turnDelivery := []
  vessels := [⟨"build", [], none, [⟨"dev", .agent none, [], [], false⟩]⟩]

/-- The work item and its one crew member. -/
def soloStatus (state : WorkState) (crew : CrewWorkState) : ConvoyStatus where
  phase := .active
  observedWorkflowRef := some "solo"
  workflowSnapshot := some soloWorkflow
  work := .ofList [("build", state)] compare
  crewWork := .ofList [("build", .ofList [("dev", crew)] compare)] compare

theorem fair_lostWorld :
    Fair lostWorld (soloStatus { phase := .running } { phase := .working }) where
  slots := by
    intro k k' v v' hv hv' hobserved
    obtain ⟨entry, hmem, heq⟩ := List.mem_map.mp (List.mem_map.mpr
      ⟨_, mem_of_lookup_ofList hv, rfl⟩ : v ∈ [("fix-build", lostVesselObject)].map Prod.snd)
    rw [List.mem_singleton] at hmem
    subst hmem
    subst heq
    cases hobserved
  crew := by
    intro _ work vessel hwork _ _
    have hkey : "build" = work := by
      simpa [soloStatus, ExtTreeMap.mem_ofList] using hwork
    subst hkey
    decide +kernel

/-- Work that runs while its vessel is lost comes to rest. -/
theorem reconcile_rests_lost :
    ∃ n, (reconcileInternal plainTexts lostWorld (repeats (passStep plainTexts lostWorld) n
      (soloStatus { phase := .running } { phase := .working }))).patch = none :=
  reconcile_rests plainTexts fair_lostWorld

/-- The crew member of the lost vessel failed: the vessel interrupts the work, the crew stalls it,
and the passes never rest. -/
theorem contested_work_never_rests :
    ∃ (texts : Texts) (w : World) (s : ConvoyStatus),
      ∀ n, (reconcileInternal texts w (repeats (passStep texts w) n s)).patch ≠ none := by
  have hinterrupts : passStep plainTexts lostWorld
      (soloStatus { phase := .stalled, message := some "broken" }
        { phase := .failed, message := some "broken" }) =
      some (soloStatus { phase := .interrupted, message := some "gone" }
        { phase := .failed, message := some "broken" }) := by decide +kernel
  have hstalls : passStep plainTexts lostWorld
      (soloStatus { phase := .interrupted, message := some "gone" }
        { phase := .failed, message := some "broken" }) =
      some (soloStatus { phase := .stalled, message := some "broken" }
        { phase := .failed, message := some "broken" }) := by decide +kernel
  refine ⟨plainTexts, lostWorld, soloStatus { phase := .stalled, message := some "broken" }
    { phase := .failed, message := some "broken" }, fun n hnone => ?_⟩
  exact never_rests_of_cycle hinterrupts hstalls n (Option.map_eq_none_iff.mpr hnone)

end Lost

end Flotilla.Status
