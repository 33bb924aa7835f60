import Flotilla.Lib.Loop
import Flotilla.Status.Promises

/-!
# Status patches

Every writer of a convoy's status does so by a patch, which is applied to
whatever the status then is.  A patch may return before its end; only a patch
that reaches its end clears the stall condition of a terminal status.

* `ConvoyStatusPatch` : the patches.
* `ConvoyStatusPatch.exempt` : the patches a terminal status still takes.
* `ConvoyStatusPatch.body` : what each patch does, as a `Flow`: an early return
  or the end of the body.
* `ConvoyStatusPatch.apply` : the guard, the body and the cleaning up.
-/

namespace Flotilla.Status

open Lib

/-! ### Admitted declarations -/

section Declarations

/-- The text before and after the first `c`. -/
def splitOnce (c : Char) (text : List Char) : Option (List Char × List Char) :=
  match text.span (· ≠ c) with
  | (before, _ :: after) => some (before, after)
  | (_, []) => none

/-- The text before and after the last `c`. -/
def rsplitOnce (c : Char) (text : List Char) : Option (List Char × List Char) :=
  (splitOnce c text.reverse).map fun parts => (parts.2.reverse, parts.1.reverse)

/-- The id a handoff wrapped, one level deep. -/
def handoffOrigin (id : List Char) : Option (List Char) := do
  let wrapped ← if "handoff/".toList.isPrefixOf id then some (id.drop 8) else none
  let rest ← splitOnce '/' wrapped
  let original ← rsplitOnce '/' rest.2
  pure original.1

/-- The dispatched label behind any number of handoffs; each level drops characters, so the
length of the id bounds them. -/
def dispatchOriginAt : Nat → List Char → List Char
  | 0, id => id
  | fuel + 1, id =>
    match handoffOrigin id with
    | some original => dispatchOriginAt fuel original
    | none => id

def dispatchOrigin (id : String) : String :=
  String.ofList (dispatchOriginAt id.toList.length id.toList)

/-- Seeding never declares obligations for crew whose work is already finished. -/
def seedsOpenPromises (s : ConvoyStatus) (vessel role : String) : Bool :=
  (s.crewAt vessel role).all fun work => work.phase ≠ .done && work.phase ≠ .handedBack

def templateId (kind : PromiseKind) : String := "template/" ++ kind.asStr

/-- The kinds the template asks of a crew member. -/
def CrewSpec.templateKinds (crew : CrewSpec) : List PromiseKind :=
  [PromiseKind.pr, .decisionLedger].filter fun kind =>
    (kind ∈ crew.promises || (crew.deliverer && kind = .pr)) && kind ∉ crew.promiseExclusions

def templateDeclarations (s : ConvoyStatus) : List (String × String × PromiseOperation) :=
  (s.workflowSnapshot.map (·.vessels)).getD [] |>.flatMap fun vessel =>
    (vessel.crew.filter fun crew => seedsOpenPromises s vessel.name crew.role).flatMap fun crew =>
      (crew.templateKinds.filter fun kind =>
          !(s.owned vessel.name crew.role).any (·.id = templateId kind)).map fun kind =>
        (vessel.name, crew.role, .declare (templateId kind) kind .template)

/-- The crew member a dispatch promise names is part of the workflow and not finished. -/
def dispatchAdmitted (s : ConvoyStatus) (promise : DispatchPromise) : Bool :=
  s.workflowSnapshot.any (fun snapshot => snapshot.vessels.any fun vessel =>
      vessel.name = promise.vessel && vessel.crew.any (·.role = promise.role)) &&
    seedsOpenPromises s promise.vessel promise.role

/-- The dispatch promise is already held, possibly by another role after a handoff. -/
def dispatchHeld (s : ConvoyStatus) (promise : DispatchPromise) : Bool :=
  (s.owned promise.vessel promise.role).any (·.id = promise.label) ||
    (s.promises[promise.vessel]?).any fun crew => crew.toList.any fun held =>
      held.2.any fun p => p.source = .dispatch && dispatchOrigin p.id = promise.label

/-- Every admitted declaration the status still lacks. -/
def admittedDeclarations (dispatch : List DispatchPromise) (s : ConvoyStatus) :
    List (String × String × PromiseOperation) :=
  templateDeclarations s ++
    (dispatch.filter fun promise => dispatchAdmitted s promise && !dispatchHeld s promise).map
      fun promise =>
        (promise.vessel, promise.role, .declare promise.label promise.kind .dispatch)

end Declarations

/-! ### Turn deliveries -/

def TurnDeliveryStatus.episodeHistory : Nat := 32

namespace TurnDeliveryStatus

/-- Append an episode, one for each subject revision, and drop the oldest past the bound. -/
def recordEpisode (d : TurnDeliveryStatus) (episode : TurnDeliveryEpisode) : TurnDeliveryStatus :=
  if d.episodes.any (·.subjectRevision = episode.subjectRevision) then d
  else
    let episodes := d.episodes ++ [episode]
    { d with episodes := episodes.drop (episodes.length - episodeHistory) }

/-- The standing hold of a source. -/
def held (d : TurnDeliveryStatus) (source : String) : Option ConvoyAttention :=
  d.hold.or <| match d.episodes.getLast? with
    | some episode =>
      match episode.outcome with
      | .refused reason refusedAt _ => some ⟨source, reason, refusedAt⟩
      | _ => none
    | none => none

end TurnDeliveryStatus

/-- The message was admitted without opening another turn. -/
def TurnDeliveryOutcome.suppressed : TurnDeliveryOutcome → Bool
  | .messageAccepted false _ _ _ => true
  | _ => false

/-- Five minutes. -/
def TurnDeliveryOutcome.queuedBound : Int := 5 * 60 * 1000000000

namespace ConvoyStatus

variable (s : ConvoyStatus)

/-- `turn_deliveries.entry(source).or_default()`, changed in place. -/
def modifyDelivery (source : String) (f : TurnDeliveryStatus → TurnDeliveryStatus) : ConvoyStatus :=
  { s with turnDeliveries := s.turnDeliveries.alter source fun d => some (f (d.getD {})) }

def pendingBriefDeliverySource : String := "operator"

def pendingBrief : Option PendingBrief :=
  s.turnDeliveries[pendingBriefDeliverySource]? >>= (·.pendingBrief)

/-- The operator's delivery goes with its brief unless it holds episodes. -/
def clearOperatorPendingBrief : ConvoyStatus :=
  { s with
    turnDeliveries := s.turnDeliveries.alter pendingBriefDeliverySource fun d =>
      d >>= fun d => if d.episodes = [] then none else some { d with pendingBrief := none } }

def clearPendingBriefFor (vessel role : String) : ConvoyStatus :=
  if s.pendingBrief.any fun brief => brief.vessel = vessel && brief.role = role then
    s.clearOperatorPendingBrief
  else s

/-! ### Stalls and nudges -/

def crewPhasePath (role : String) : String := ".crew." ++ role ++ ".phase"

/-- The report of a crew member repeats the standing one. -/
def isSameCrewStall (convoy vessel role : String) (reason : StallReason)
    (proposedDisposition : Option StallProposedDisposition) (message : String) : Bool :=
  (s.crewAt vessel role).any (fun state =>
      state.phase = .stalled && state.message = some message) &&
    s.stalled.any fun stall =>
      stall.source = .crew && stall.reason = some reason &&
        stall.proposedDisposition = proposedDisposition &&
        stall.leaves.any fun leaf =>
          leaf.address = .work convoy vessel && leaf.fieldPath = crewPhasePath role

def clearNudgeBudget (vessel role : String) : ConvoyStatus :=
  { s with
    nudgeObligations := s.nudgeObligations.map fun obligation =>
      if obligation.maker = .actor vessel role then
        { obligation with history := [], quietSince := none, replyAfter := none }
      else obligation }

/-- The leaf waits for the crew member to be done. -/
def waitsForCrew (vessel role : String) (leaf : Leaf) : Bool :=
  (match leaf.address with
    | .work _ work => work = vessel
    | _ => false) && leaf.fieldPath = crewPhasePath role

def clearStallForCrew (vessel role : String) : ConvoyStatus :=
  if s.stalled.any fun stalled => stalled.leaves.any (waitsForCrew vessel role) then
    { s with stalled := none }
  else s

/-! ### Landing -/

/-- The turn that was delivered to a crew member last before it claimed to be done. -/
def precedingTurn (vessel role : String) (claimedAt : DateTime) : Option LandingTurn :=
  let turns := s.turnDeliveries.toList.flatMap fun delivery =>
    let targetMatches := (s.workflowSnapshot >>= fun snapshot =>
      snapshot.turnDelivery.lookup delivery.1).any fun rule =>
        rule.target.vessel = vessel && rule.target.role = role
    delivery.2.episodes.filterMap fun episode =>
      let at? := match episode.outcome with
        | .delivered _ deliveredAt => if targetMatches then some deliveredAt else none
        | .messageAccepted true _ _ acceptedAt => if targetMatches then some acceptedAt else none
        | _ => none
      at? >>= fun at_ =>
        if at_ ≤ claimedAt then some (at_, LandingTurn.mk delivery.1 episode) else none
  (turns.foldl (fun best turn =>
    match best with
    | some (at_, held) => if at_ ≤ turn.1 then some turn else some (at_, held)
    | none => some turn) none).map Prod.snd

def readyForLanding : Bool :=
  s.phase = .active && !s.work.isEmpty &&
    s.work.toList.all fun (work, state) =>
      state.phase = .complete ||
        (state.completionAuthority = .crewRollup &&
          s.crewWork[work]?.any fun crew =>
            !crew.isEmpty && crew.toList.all fun member => member.2.phase = .done)

def workOverrideRole : String := "work override"

/-- The completion claims of one work item. -/
def landingClaims (vessel : String) (work : WorkState) : List LandingClaim :=
  let crew := (s.crewWork[vessel]?.map (·.toList)).getD []
  let claims :=
    if work.completionAuthority = .crewRollup then
      (crew.filter fun member =>
        member.2.phase = .done && member.2.completionAuthority ≠ .promises).map fun member =>
          { vessel, role := member.1, claimedAt := member.2.finishedAt
            message := member.2.message
            completedWhileCrewActive := member.2.completedWhileCrewActive
            precedingTurn := member.2.completionTurn }
    else []
  let derived := work.completionAuthority = .crewRollup && crew.any fun member =>
    member.2.phase = .done && member.2.completionAuthority = .promises
  if claims = [] && !derived then
    [{ vessel, role := workOverrideRole, claimedAt := work.finishedAt, message := work.message
       completedWhileCrewActive := false, precedingTurn := none }]
  else claims

def enterLandingIfCompletionClaimsSettled (enteredAt : DateTime) : ConvoyStatus :=
  if s.readyForLanding then
    { s with
      landingEntry := some
        { enteredAt
          claims := s.work.toList.flatMap fun item => s.landingClaims item.1 item.2
          eventEmitted := false }
      landingSettlement := none
      phase := .landing }
  else s

/-- A settled claim needs an explicit request to be reopened. -/
def crewClaimIsSettled (vessel role : String) : Bool :=
  (s.crewAt vessel role).any (·.phase = .done) &&
    (s.phase = .landing || s.allPromises.all (·.state.terminal))

end ConvoyStatus

/-! ### The patches -/

/-- Who abandoned a convoy, as its message says. -/
def WorkCompletionAuthority.actor : WorkCompletionAuthority → String
  | .crewRollup => "crew rollup"
  | .promises => "promises"
  | .humanOverride => "human override"
  | .principal who => who.name
  | .unattributed => "unattributed"

inductive ResumeIntent where
  | reminder
  | reopen
  deriving DecidableEq

inductive ConvoyStatusPatch where
  | promise (vessel role : String) (operation : PromiseOperation)
  | observePromise (vessel role : String) (operation : PromiseOperation)
  | handPromisesToEngine
  | holdTurnDelivery (source : String) (hold : ConvoyAttention)
  | restoreTurnActivation (vessel role : String) (activated previous : ConvoyStatus)
  | observeEnvironment (vessel : String) (observation : EnvironmentRuntimeObservation)
  | recordNaming (naming : Stored)
  | recordEnsureAdmission (config : Stored)
  | discoverSubjects (subjects : List (Subject × Relationship)) (source : SubjectDiscoverySource)
      (at_ : DateTime)
  | recordBranchSubjectScan (at_ : DateTime)
  | recordBranchSubjectScanFailure (error : String)
  | unlinkSubject (subject : Subject)
  | setStalled (condition : Option StalledCondition)
  | setNudgeObligations (obligations : List NudgeObligation)
  | setTeardownWait (message : String)
  | recordLifecycleMutation (mutation : Stored)
  | setPlacementDecision (placementDecision : Stored)
  | bootstrap (workflowSnapshot : WorkflowSnapshot) (observedWorkflowRef : String)
      (observedWorkflows : BTreeMap String String) (work : BTreeMap String WorkState)
      (crewWork : BTreeMap String (BTreeMap String CrewWorkState))
      (dispatchPromises : List DispatchPromise) (phase : ConvoyPhase)
      (startedAt : Option DateTime)
  | backfillCrewWork (crewWork : BTreeMap String (BTreeMap String CrewWorkState))
      (completionOverrides : BTreeSet String)
  | failInit (phase : ConvoyPhase) (message : String) (finishedAt : DateTime)
  | advanceWorkToReady (ready : BTreeMap String DateTime)
  | failConvoy (cancelledWork : BTreeMap String DateTime) (finishedAt : DateTime)
      (message : Option String)
  | rollUpPhase (phase : ConvoyPhase) (startedAt finishedAt : Option DateTime)
  | recordLandingEvent (transition : Option ConvoyStatusPatch)
  | settle (evidence : Option Stored) (disposition : String)
      (targetMismatches : List TargetMismatch) (finishedAt : DateTime)
  | setSettlementAttention (attention : Option ConvoyAttention)
  | observeTurnHookHealth (reason : Option String) (observedAt : DateTime)
  | queueSupervisorTurn (turn : PendingSupervisorTurn)
  | acknowledgeSupervisorTurn (messageId : String)
  | workLaunching (work : String) (startedAt : DateTime) (placement : BTreeMap String Stored)
  | workRunning (work : String) (startedAt : DateTime) (launchedRoles : BTreeSet String)
  | workProvisioningRetry (work : String) (retry : ControllerRetry) (message : String)
  | workInterrupted (work : String) (roles : BTreeSet String) (message : String)
  | forceWorkCompleted (work : String) (finishedAt : DateTime) (message : Option String)
  | markWorkFailed (work : String) (finishedAt : DateTime) (message : String)
  | markWorkCancelled (work : String) (finishedAt : DateTime)
  | markConvoyAbandoned (expectedPhase : ConvoyPhase) (finishedAt : DateTime)
      (authority : WorkCompletionAuthority) (reason : String)
  | deriveCrewDone (vessel role : String) (at_ : DateTime) (engine : Bool)
  | markCrewCompleted (vessel role : String) (finishedAt : DateTime) (message : Option String)
      (disposition decisionLedgerRef decisionLedgerDigest : Option String)
      (completedWhileCrewActive : Bool) (forcedBy : Option PrincipalRef)
  | markCrewFailed (vessel role : String) (finishedAt : DateTime) (message : String)
  | markCrewStalled (convoy vessel role : String) (at_ : DateTime) (reason : StallReason)
      (proposedDisposition : Option StallProposedDisposition) (message : String)
  | handoffCrewWork (vessel senderRole targetRole : String) (handedOffAt : DateTime)
      (message : String)
  | resumeCrewWork (intent : ResumeIntent) (vessel role : String) (resumedAt : DateTime)
      (prompt : String) (briefId : Option String)
  | queueMessageFollowUp (vessel role : String) (message : Option ResourceRef)
  | beginMessageFollowUp (vessel role : String) (message : ResourceRef) (content : String)
      (claim : SupersededCrewClaim)
  | recordTurnDelivery (source : String) (episode : TurnDeliveryEpisode) (vessel role : String)
      (prompt : String)
  | observeQueuedTurnDeliveries (observations : List QueuedTurnObservation)
      (observedAt : DateTime)
  | failTurnDelivery (source : String) (failure : TurnDeliveryFailure)
  | refuseTurnDelivery (source : String) (episode : TurnDeliveryEpisode)
      (attention : ConvoyAttention)
  | rollUpWork (work : String) (phase : WorkPhase) (transitionedAt : DateTime)
      (message : Option String)

/-- What the body of a patch comes to: `error` is an early return with the status as it then is,
`ok` is the end of the body. -/
abbrev Flow := Except ConvoyStatus ConvoyStatus

/-! ### What the patches do -/

namespace ConvoyStatus

variable (s : ConvoyStatus)

def holdTurnDelivery (source : String) (hold : ConvoyAttention) : ConvoyStatus :=
  { s.modifyDelivery source fun d => { d with hold := some (d.hold.getD hold) } with
    attention := some (((s.turnDeliveries[source]?.getD {}).hold).getD hold) }

/-- The crew member as it was before the activation. -/
def restoredCrew (s previous : ConvoyStatus) (vessel role : String) :
    BTreeMap String (BTreeMap String CrewWorkState) :=
  match previous.crewAt vessel role with
  | some prior => s.crewWork.alter vessel fun crew => some ((crew.getD ∅).insert role prior)
  | none => s.crewWork

/-- The work item as it was, where its whole crew is as it was and the activation's work still
stands. -/
def restoredWork (s activated previous : ConvoyStatus) (vessel role : String) :
    BTreeMap String WorkState :=
  if (s.restoredCrew previous vessel role)[vessel]? = previous.crewWork[vessel]? ∧
      s.work[vessel]? = activated.work[vessel]? then
    match previous.work[vessel]? with
    | some prior => s.work.insert vessel prior
    | none => s.work
  else s.work

instance lawfulBEq_crew : LawfulBEq (BTreeMap String CrewWorkState) := inferInstance

/-- Restore only a speculative activation that this attempt still owns. -/
def restoreTurnActivation (vessel role : String) (activated previous s : ConvoyStatus) : Flow := do
  refuseIf (s.crewAt vessel role ≠ activated.crewAt vessel role) s
  let crewWork := s.restoredCrew previous vessel role
  let work := s.restoredWork activated previous vessel role
  let whole := work = previous.work ∧ crewWork = previous.crewWork ∧
    s.phase = activated.phase ∧ s.finishedAt = activated.finishedAt
  pure { s with
    crewWork, work
    phase := if whole then previous.phase else s.phase
    finishedAt := if whole then previous.finishedAt else s.finishedAt
    stalled := if whole ∧ s.stalled = activated.stalled then previous.stalled else s.stalled }

def observeEnvironment (vessel : String) (observation : EnvironmentRuntimeObservation) :
    ConvoyStatus :=
  { s with
    environmentObservations := s.environmentObservations.alter vessel fun prior =>
      some ((prior.getD {}).merge observation) }

/-- A crew member that claimed to be done makes no more operations of its own. -/
def promise (names : Spelling) (s : ConvoyStatus) (vessel role : String)
    (operation : PromiseOperation) : ConvoyStatus :=
  if (s.crewAt vessel role).all (·.phase ≠ .done) then
    s.applyPromise names vessel role operation
  else s

def discoverSubjects (subjects : List (Subject × Relationship)) (source : SubjectDiscoverySource)
    (at_ : DateTime) : ConvoyStatus :=
  subjects.foldl (fun s subject => s.discoverSubject subject.1 subject.2 source at_) s

def setStalled (condition : Option StalledCondition) : ConvoyStatus :=
  { s with stalled := if s.phase.isTerminal then none else condition }

def retainedMutations : Nat := 32

def recordLifecycleMutation (mutation : Stored) : ConvoyStatus :=
  let mutations := s.lifecycleMutations ++ [mutation]
  { s with
    lifecycleMutations :=
      if retainedMutations < mutations.length then mutations.drop 1 else mutations }

/-- Seed every admitted declaration that is lacking. -/
def seedPromises (names : Spelling) (dispatch : List DispatchPromise) (s : ConvoyStatus) :
    ConvoyStatus :=
  (admittedDeclarations dispatch s).foldl
    (fun s declaration => s.applyPromise names declaration.1 declaration.2.1 declaration.2.2) s

def bootstrap (names : Spelling) (s : ConvoyStatus) (workflowSnapshot : WorkflowSnapshot)
    (observedWorkflowRef : String) (observedWorkflows : BTreeMap String String)
    (work : BTreeMap String WorkState) (crewWork : BTreeMap String (BTreeMap String CrewWorkState))
    (dispatchPromises : List DispatchPromise) (phase : ConvoyPhase)
    (startedAt : Option DateTime) : ConvoyStatus :=
  let seeded := seedPromises names dispatchPromises
    { s with
      provisioning := some (s.provisioning.getD .notStarted)
      workflowSnapshot := some workflowSnapshot
      observedWorkflowRef := some observedWorkflowRef
      observedWorkflows := some observedWorkflows
      work, crewWork }
  { seeded with phase, startedAt := seeded.startedAt.or startedAt }

def backfillCrewWork (crewWork : BTreeMap String (BTreeMap String CrewWorkState))
    (completionOverrides : BTreeSet String) : ConvoyStatus :=
  { s with
    crewWork := crewWork.toList.foldl (fun all missing =>
      all.alter missing.1 fun crew => some (missing.2 ∪ crew.getD ∅)) s.crewWork
    work := s.work.map fun work state =>
      if work ∈ completionOverrides then { state with completionAuthority := .humanOverride }
      else state }

def failInit (phase : ConvoyPhase) (message : String) (finishedAt : DateTime) : ConvoyStatus :=
  let failed := { s with
    provisioning := some (s.provisioning.getD .notStarted)
    phase
    message := some message
    finishedAt := some (s.finishedAt.getD finishedAt) }
  if phase.isTerminal then failed.clearOperatorPendingBrief else failed

def advanceWorkToReady (ready : BTreeMap String DateTime) : ConvoyStatus :=
  { s with
    provisioning := match s.provisioning, (ready.toList.map Prod.snd).min? with
      | some (.started startedAt), _ => some (.started startedAt)
      | _, some startedAt => some (.started startedAt)
      | provisioning, none => provisioning
    work := s.work.map fun work state =>
      match ready[work]? with
      | some readyAt =>
        { state with phase := .ready, readyAt := some (state.readyAt.getD readyAt) }
      | none => state }

def failConvoy (cancelledWork : BTreeMap String DateTime) (finishedAt : DateTime)
    (message : Option String) : ConvoyStatus :=
  clearOperatorPendingBrief { s with
    phase := .failed
    finishedAt := some ((if s.phase ≠ .failed then none else s.finishedAt).getD finishedAt)
    message
    work := s.work.map fun work state =>
      match cancelledWork[work]? with
      | some cancelledAt =>
        if state.phase.isTerminal then state
        else { state with
          phase := .cancelled, finishedAt := some (state.finishedAt.getD cancelledAt) }
      | none => state }

def rollUpPhase (phase : ConvoyPhase) (startedAt finishedAt : Option DateTime) : ConvoyStatus :=
  let kept := if phase = .active then none else s.finishedAt
  let rolled := { s with
    phase
    startedAt := s.startedAt.or startedAt
    finishedAt := match finishedAt with
      | some finishedAt => some ((if s.phase ≠ phase then none else kept).getD finishedAt)
      | none => kept }
  if phase.isTerminal then rolled.clearOperatorPendingBrief else rolled

def markEventEmitted : ConvoyStatus :=
  { s with landingEntry := s.landingEntry.map fun entry => { entry with eventEmitted := true } }

def settle (evidence : Option Stored) (disposition : String)
    (targetMismatches : List TargetMismatch) (finishedAt : DateTime) : Flow := do
  refuseIf (s.allPromises.any (!·.state.terminal)) s
  pure <| clearOperatorPendingBrief { s with
    landingSettlement := if s.phase ≠ .landed then evidence else s.landingSettlement
    phase := .landed
    targetMismatches
    disposition := some disposition
    finishedAt := some ((if s.phase ≠ .landed then none else s.finishedAt).getD finishedAt)
    attention := none }

/-- Advisory: it neither replaces nor clears the attention of another source. -/
def observeTurnHookHealth (reason : Option String) (observedAt : DateTime) : ConvoyStatus :=
  if s.attention.all (·.source = ConvoyAttention.missingTurnHookSource) then
    { s with
      attention := reason.map fun reason =>
        ⟨ConvoyAttention.missingTurnHookSource, reason,
          (s.attention.map (·.raisedAt)).getD observedAt⟩ }
  else s

/-- The order after every queued turn, at most the largest `u64`. -/
def nextTurnOrder : Nat :=
  let orders := s.turnDeliveries.toList.filterMap fun delivery =>
    delivery.2.pendingSupervisorTurn.map (·.queuedOrder)
  min (orders.max?.getD 0 + 1) (2 ^ 64 - 1)

def queueSupervisorTurn (turn : PendingSupervisorTurn) : ConvoyStatus :=
  let existingOrder := (s.turnDeliveries[turn.message.id]? >>= (·.pendingSupervisorTurn)).map
    (·.queuedOrder)
  s.modifyDelivery turn.message.id fun d =>
    { d with
      pendingSupervisorTurn :=
        some { turn with queuedOrder := existingOrder.getD s.nextTurnOrder } }

def acknowledgeSupervisorTurn (messageId : String) : ConvoyStatus :=
  let acknowledged := { s with
    turnDeliveries := s.turnDeliveries.alter messageId fun d => d >>= fun d =>
      if d.episodes = [] ∧ d.pendingBrief = none then none
      else some { d with pendingSupervisorTurn := none } }
  if (acknowledged.turnDeliveries.toList.all fun delivery =>
        delivery.2.pendingSupervisorTurn = none) &&
      s.attention.any (·.source = ConvoyAttention.supervisorTurnSource) then
    { acknowledged with attention := none }
  else acknowledged

def workLaunching (work : String) (startedAt : DateTime) (placement : BTreeMap String Stored) :
    ConvoyStatus :=
  s.modifyWork work fun state =>
    { state with
      phase := .launching
      startedAt := some (state.startedAt.getD startedAt)
      placement := some placement }

/-- Only the crew the vessel launched are working; interrupted ones continue. -/
def launchCrew (startedAt : DateTime) (launchedRoles : BTreeSet String) (role : String)
    (state : CrewWorkState) : CrewWorkState :=
  if state.phase = .pending ∧ role ∈ launchedRoles then
    { state with phase := .working, startedAt := some (state.startedAt.getD startedAt) }
  else if state.phase = .interrupted then { state with phase := .working, message := none }
  else state

def workRunning (work : String) (startedAt : DateTime) (launchedRoles : BTreeSet String) :
    ConvoyStatus :=
  let running := s.modifyWork work fun state =>
    { state with
      provisioningRetry := none
      phase := .running
      completionAuthority := .crewRollup
      message := none }
  { running with
    crewWork := running.crewWork.modify work fun crew =>
      crew.map (launchCrew startedAt launchedRoles) }

def interruptCrew (roles : BTreeSet String) (message : String) (role : String)
    (state : CrewWorkState) : CrewWorkState :=
  if role ∈ roles ∧
      (state.phase = .working ∨ state.phase = .interrupted ∨ state.phase = .stalled) then
    { state with
      phase := .interrupted
      message := some ("crew session for `" ++ role ++ "` was interrupted: " ++ message)
      finishedAt := none }
  else state

def workInterrupted (work : String) (roles : BTreeSet String) (message : String) : ConvoyStatus :=
  let interrupted := s.modifyWork work fun state =>
    { state with
      phase := .interrupted
      completionAuthority := .crewRollup
      message := some message
      finishedAt := none }
  { interrupted with
    crewWork := interrupted.crewWork.modify work fun crew =>
      crew.map (interruptCrew roles message) }

/-- The roles of a work item that are working. -/
def workingRoles (work : String) : BTreeSet String :=
  (((s.crewWork[work]?.map (·.toList)).getD []).filterMap fun member =>
    if member.2.phase = .working then some member.1 else none).foldl (·.insert ·) ∅

def forceWorkCompleted (work : String) (finishedAt : DateTime) (message : Option String) :
    Flow := do
  refuseIf (s.work[work]?.any fun state => state.phase.isTerminal && state.phase ≠ .complete) s
  pure <| enterLandingIfCompletionClaimsSettled
    (s.modifyWork work fun state =>
      { state with
        phase := .complete
        completionAuthority := .humanOverride
        finishedAt := some (state.finishedAt.getD finishedAt)
        message }) finishedAt

def markWorkFailed (work : String) (finishedAt : DateTime) (message : String) : Flow := do
  refuseIf (s.work[work]?.any fun state => state.phase.isTerminal && state.phase ≠ .failed) s
  pure <| s.modifyWork work fun state =>
    { state with
      phase := .failed
      finishedAt := some (state.finishedAt.getD finishedAt)
      message := some message }

def markWorkCancelled (work : String) (finishedAt : DateTime) : Flow := do
  refuseIf (s.work[work]?.any fun state => state.phase.isTerminal && state.phase ≠ .cancelled) s
  pure <| s.modifyWork work fun state =>
    { state with
      phase := .cancelled
      finishedAt := some (state.finishedAt.getD finishedAt) }

def markConvoyAbandoned (expectedPhase : ConvoyPhase) (finishedAt : DateTime)
    (authority : WorkCompletionAuthority) (reason : String) : Flow := do
  refuseIf (s.phase ≠ expectedPhase) s
  pure <| clearOperatorPendingBrief { s with
    phase := .abandoned
    finishedAt := some finishedAt
    message := some
      ("abandoned by " ++ authority.actor ++ ": " ++ reason)
    work := s.work.map fun _ state =>
      if state.phase.isTerminal then state
      else { state with
        phase := .abandoned
        completionAuthority := authority
        finishedAt := some (state.finishedAt.getD finishedAt)
        message := some reason }
    crewWork := s.crewWork.map fun _ crew => crew.map fun _ state =>
      if state.phase.isTerminal then state
      else { state with
        phase := .failed
        completionAuthority := authority
        finishedAt := some (state.finishedAt.getD finishedAt)
        message := some reason } }

def deriveCrewDone (vessel role : String) (at_ : DateTime) (engine : Bool) : Flow := do
  refuseIf s.phase.isTerminal s
  refuseIf (!engine ∧ (s.owned vessel role = [] ∨
    (s.owned vessel role).any (!·.state.terminal))) s
  let state ← okOr (s.crewAt vessel role) s
  -- Promises may be settled before the convoy is active again; landing is entered then.
  refuseIf state.phase.isTerminal
    (if state.phase = .done ∧ state.completionAuthority = .promises then
      s.enterLandingIfCompletionClaimsSettled at_
    else s)
  let done := s.modifyCrew vessel role fun state =>
    { state with
      phase := .done
      completionAuthority := .promises
      finishedAt := none
      message := none
      completionTurn := none
      completionRefusal := none }
  pure <| enterLandingIfCompletionClaimsSettled
    ((done.clearNudgeBudget vessel role).clearStallForCrew vessel role) at_

/-- The claim of a crew member to be done; a repeated claim keeps its time. -/
def claimDone (finishedAt : DateTime) (message disposition decisionLedgerRef
    decisionLedgerDigest : Option String) (completedWhileCrewActive : Bool)
    (forcedBy : Option PrincipalRef) (completionTurn : Option LandingTurn)
    (state : CrewWorkState) : CrewWorkState :=
  let settled := state.phase ≠ .done ∨ (disposition ≠ none ∧ state.disposition ≠ disposition)
  let claimed := { state with
    completionRefusal := none
    completionTurn := if settled then completionTurn else state.completionTurn
    phase := .done
    pendingFollowUp := none
    finishedAt := some ((if settled then none else state.finishedAt).getD finishedAt)
    message
    disposition := disposition.or state.disposition
    decisionLedgerRef := decisionLedgerRef.or state.decisionLedgerRef
    decisionLedgerDigest := decisionLedgerDigest.or state.decisionLedgerDigest
    completedWhileCrewActive := state.completedWhileCrewActive || completedWhileCrewActive }
  match forcedBy with
  | some principal =>
    if claimed.decisionLedgerRef = none ∧ claimed.decisionLedgerDigest = none then
      { claimed with completionOverride := some ⟨principal, finishedAt⟩ }
    else claimed
  | none => claimed

def markCrewCompleted (vessel role : String) (finishedAt : DateTime)
    (message disposition decisionLedgerRef decisionLedgerDigest : Option String)
    (completedWhileCrewActive : Bool) (forcedBy : Option PrincipalRef) : Flow := do
  refuseIf (forcedBy = none ∧ (s.owned vessel role).any (!·.state.terminal)) s
  let claimed := (s.clearNudgeBudget vessel role).modifyCrew vessel role
    (claimDone finishedAt message disposition decisionLedgerRef decisionLedgerDigest
      completedWhileCrewActive forcedBy
      ((s.clearNudgeBudget vessel role).precedingTurn vessel role finishedAt))
  pure <| (claimed.clearStallForCrew vessel role).enterLandingIfCompletionClaimsSettled finishedAt

def markCrewFailed (vessel role : String) (finishedAt : DateTime) (message : String) :
    ConvoyStatus :=
  let failed := (s.modifyWork vessel fun work =>
    { work with completionAuthority := .crewRollup }).modifyCrew vessel role fun state =>
      { state with
        phase := .failed
        finishedAt := some ((if state.phase ≠ .failed then none else state.finishedAt).getD
          finishedAt)
        message := some message }
  (failed.clearPendingBriefFor vessel role).clearStallForCrew vessel role

def crewStall (convoy vessel role : String) (at_ : DateTime) (reason : StallReason)
    (proposedDisposition : Option StallProposedDisposition) (message : String) :
    StalledCondition where
  leaves := [⟨.work convoy vessel, crewPhasePath role, .equal, "Done"⟩]
  maker := some (.actor vessel role)
  evidence := message
  source := .crew
  cause := none
  beganAt := at_
  rung := .operator
  supervisor := none
  supervisionMessage := none
  supervisionIndex := none
  supervisionExhausted := false
  reason := some reason
  proposedDisposition
  nudgeHistory := []

def markCrewStalled (convoy vessel role : String) (at_ : DateTime) (reason : StallReason)
    (proposedDisposition : Option StallProposedDisposition) (message : String) : Flow := do
  refuseIf (s.isSameCrewStall convoy vessel role reason proposedDisposition message) s
  let cleared := s.clearNudgeBudget vessel role
  -- A completion claim is settled work: a late stall does not reopen it.
  refuseIf ((cleared.crewAt vessel role).any (·.phase = .done)) cleared
  pure { cleared.modifyCrew vessel role fun state =>
      { state with phase := .stalled, finishedAt := none, message := some message } with
    stalled := some (crewStall convoy vessel role at_ reason proposedDisposition message) }

/-- The role that work is handed to continues its process. -/
def takeOver (handedOffAt : DateTime) (message : String) (target : CrewWorkState) : CrewWorkState :=
  if target.phase = .pending ∨ target.phase = .done ∨ target.phase = .handedBack then
    { target with
      taskAssigned := true
      phase := .working
      startedAt := some (target.startedAt.getD handedOffAt)
      finishedAt := none
      decisionLedgerDigest := none
      message := some message }
  else { target with taskAssigned := true }

def handoffCrewWork (vessel senderRole targetRole : String) (handedOffAt : DateTime)
    (message : String) : Flow := do
  let handed := if s.crewWork[vessel]?.any (targetRole ∈ ·) then
      s.handoff vessel senderRole targetRole
    else s
  let s := handed.modifyWork vessel fun work => { work with completionAuthority := .crewRollup }
  let crew ← okOr s.crewWork[vessel]? s
  let targetWasDone := crew[targetRole]?.any (·.phase = .done)
  let taken := s.modifyCrew vessel targetRole (takeOver handedOffAt message)
  pure <| if targetWasDone ∧ senderRole ≠ targetRole then
      clearPendingBriefFor (taken.modifyCrew vessel senderRole fun sender =>
        { sender with
          phase := .handedBack
          finishedAt := some handedOffAt
          message := some message }) vessel senderRole
    else taken

/-- The sources held for a crew member. -/
def heldSources (vessel role : String) : List String :=
  ((s.workflowSnapshot.map (·.turnDelivery)).getD []).filterMap fun rule =>
    if rule.2.target.vessel = vessel ∧ rule.2.target.role = role ∧
        s.turnDeliveries[rule.1]?.any (fun d => (d.held rule.1).isSome) then some rule.1
    else none

def releaseSource (source : String) : ConvoyStatus :=
  { s with
    turnDeliveries := s.turnDeliveries.erase source
    attention := if s.attention.any (·.source = source) then none else s.attention }

/-- A turn that reopens the work of a crew member. -/
def reopenWork (work : WorkState) : WorkState :=
  { work with phase := .running, finishedAt := none, completionAuthority := .crewRollup }

def resumeCrew (resumedAt : DateTime) (prompt : String) (briefId : Option String)
    (state : CrewWorkState) : CrewWorkState :=
  { state with
    pendingFollowUp := none
    resumedAt := briefId.map fun _ => resumedAt
    resumeBriefId := briefId
    taskAssigned := true
    phase := .working
    startedAt := some (state.startedAt.getD resumedAt)
    finishedAt := none
    decisionLedgerDigest := none
    message := some prompt }

def resumeCrewWork (intent : ResumeIntent) (vessel role : String) (resumedAt : DateTime)
    (prompt : String) (briefId : Option String) : Flow := do
  refuseIf (intent = .reminder ∧ s.crewClaimIsSettled vessel role) s
  let released := (s.heldSources vessel role).foldl releaseSource s
  let active := { released with phase := .active, finishedAt := none }
  let resumed := (active.modifyWork vessel reopenWork).modifyCrew vessel role
    (resumeCrew resumedAt prompt briefId)
  pure <| clearPendingBriefFor { resumed with stalled := none } vessel role

/-- What a superseded claim leaves. -/
def dropClaim (state : CrewWorkState) : CrewWorkState :=
  { state with
    disposition := none
    decisionLedgerRef := none
    decisionLedgerDigest := none
    completionOverride := none
    completedWhileCrewActive := false }

def deliverTurn (prompt : String) (state : CrewWorkState) : CrewWorkState :=
  { state with
    taskAssigned := true
    phase := .working
    finishedAt := none
    decisionLedgerDigest := none
    message := some prompt }

def recordTurnDelivery (source : String) (episode : TurnDeliveryEpisode) (vessel role : String)
    (prompt : String) : Flow := do
  let recorded := s.modifyDelivery source fun d =>
    { d with failure := none, hold := none }.recordEpisode episode
  refuseIf episode.outcome.suppressed
    { recorded with
      attention := if s.attention.any (·.source = source) then none else s.attention }
  let delivered := ({ recorded with attention := none }.modifyWork vessel reopenWork).modifyCrew
    vessel role (deliverTurn prompt)
  pure { delivered with phase := .active, finishedAt := none }

/-- What is observed of a queued turn. -/
def observeQueued (observedAt : DateTime) (observation : QueuedTurnObservation)
    (episode : TurnDeliveryEpisode) : TurnDeliveryEpisode :=
  { episode with
    outcome := match episode.outcome with
      | .queued rung queuedAt vessel role messageId _ =>
        if observation.confirmed then .delivered rung observedAt
        else .queued rung queuedAt vessel role messageId observation.blockingReason
      | outcome => outcome }

def observeQueuedTurn (observedAt : DateTime) (s : ConvoyStatus)
    (observation : QueuedTurnObservation) : ConvoyStatus :=
  { s with
    turnDeliveries := s.turnDeliveries.modify observation.source fun d =>
      { d with
        episodes := modifyFirst (·.subjectRevision = observation.subjectRevision)
          (observeQueued observedAt observation) d.episodes } }

/-- The queued turns that are overdue, as they are reported. -/
def overdueTurns (names : Spelling) (s : ConvoyStatus) (observedAt : DateTime) : List String :=
  s.turnDeliveries.toList.flatMap fun delivery =>
    delivery.2.episodes.filterMap fun episode =>
      match episode.outcome with
      | .queued _ queuedAt _ _ messageId blockingReason =>
        if !s.phase.isTerminal && observedAt - queuedAt > TurnDeliveryOutcome.queuedBound then
          some (delivery.1 ++ ": " ++ messageId ++ " queued since " ++ names.rfc3339 queuedAt ++
            " without submission: " ++ blockingReason)
        else none
      | _ => none

def observeQueuedTurnDeliveries (names : Spelling) (s : ConvoyStatus)
    (observations : List QueuedTurnObservation) (observedAt : DateTime) : ConvoyStatus :=
  let observed := observations.foldl (observeQueuedTurn observedAt) s
  if observed.attention.all (·.source = ConvoyAttention.queuedTurnSource) then
    let overdue := observed.overdueTurns names observedAt
    { observed with
      attention :=
        if overdue = [] then none
        else some ⟨ConvoyAttention.queuedTurnSource, "\n".intercalate overdue,
          (observed.attention.map (·.raisedAt)).getD observedAt⟩ }
  else observed

def failTurnDelivery (source : String) (failure : TurnDeliveryFailure) : ConvoyStatus :=
  let changed := (s.turnDeliveries[source]?.getD {}).failure.all fun prior =>
    prior.kind ≠ failure.kind || prior.reason ≠ failure.reason
  { s.modifyDelivery source fun d => { d with failure := some failure } with
    attention :=
      if changed && s.attention.all (·.source = source) then
        some ⟨source, failure.reason, failure.failedAt⟩
      else s.attention }

def refuseTurnDelivery (source : String) (episode : TurnDeliveryEpisode)
    (attention : ConvoyAttention) : ConvoyStatus :=
  { s.modifyDelivery source fun d => { d with failure := none }.recordEpisode episode with
    attention := some attention }

def rollUpWork (work : String) (phase : WorkPhase) (transitionedAt : DateTime)
    (message : Option String) : ConvoyStatus :=
  s.modifyWork work fun state =>
    { state with
      phase
      completionAuthority := .crewRollup
      message
      finishedAt :=
        if phase.isTerminal then
          some ((if state.phase ≠ phase then none else state.finishedAt).getD transitionedAt)
        else none }

/-- Terminal state and its stall condition are one write. -/
def clearTerminalStall : ConvoyStatus :=
  if s.phase.isTerminal then { s with stalled := none } else s

/-- A patch as it is applied: a terminal status takes only exempt ones, and the stall condition of
a terminal status is cleared where the end of the body is reached. -/
def guarded (exempt : Bool) (body : ConvoyStatus → Flow) (s : ConvoyStatus) : ConvoyStatus :=
  if s.phase.isTerminal && !exempt then s
  else match body s with
    | .error returned => returned
    | .ok reached => reached.clearTerminalStall

def workProvisioningRetry (work : String) (retry : ControllerRetry) (message : String) :
    ConvoyStatus :=
  (s.guarded false fun s =>
      pure (s.workInterrupted work (s.workingRoles work) message)).modifyWork work
    fun state => { state with provisioningRetry := some retry }

def beginMessageFollowUp (vessel role : String) (message : ResourceRef) (content : String)
    (claim : SupersededCrewClaim) : Flow := do
  refuseIf ((s.crewAt vessel role).all fun state => state.pendingFollowUp ≠ some message) s
  let superseded := s.modifyCrew vessel role fun state =>
    { state with supersededClaims := state.supersededClaims ++ [claim] }
  let resumed := superseded.guarded false fun s =>
    s.resumeCrewWork .reopen vessel role claim.claimedAt content (some message.name)
  pure (resumed.modifyCrew vessel role dropClaim)

end ConvoyStatus

/-! ### Application -/

namespace ConvoyStatusPatch

/-- The patch is one that a terminal status takes: an audit record, an observation, or an abandon
that names the phase it saw. -/
def exempt (s : ConvoyStatus) : ConvoyStatusPatch → Bool
  | .observeEnvironment .. | .recordLandingEvent _ | .recordLifecycleMutation _ | .setStalled _
  | .setTeardownWait _ | .observeQueuedTurnDeliveries .. => true
  | .markConvoyAbandoned expectedPhase _ _ _ =>
    expectedPhase = s.phase && s.phase ≠ .abandoned
  | _ => false

def body (names : Spelling) : ConvoyStatusPatch → ConvoyStatus → Flow
  | .holdTurnDelivery source hold, s => pure (s.holdTurnDelivery source hold)
  | .restoreTurnActivation vessel role activated previous, s =>
    ConvoyStatus.restoreTurnActivation vessel role activated previous s
  | .observeEnvironment vessel observation, s => pure (s.observeEnvironment vessel observation)
  | .recordNaming naming, s => pure { s with naming := some naming }
  | .recordEnsureAdmission config, s =>
    pure { s with ensureAdmission := some (s.ensureAdmission.getD config) }
  | .promise vessel role operation, s => pure (s.promise names vessel role operation)
  | .observePromise vessel role operation, s => pure (s.applyPromise names vessel role operation)
  | .handPromisesToEngine, s => pure { s with promises := ∅ }
  | .discoverSubjects subjects source at_, s => pure (s.discoverSubjects subjects source at_)
  | .recordBranchSubjectScan at_, s =>
    pure { s with branchSubjectScanAt := some at_, branchSubjectScanError := none }
  | .recordBranchSubjectScanFailure error, s =>
    pure { s with branchSubjectScanError := some error }
  | .unlinkSubject subject, s => pure (s.unlinkSubject subject)
  | .setStalled condition, s => pure (s.setStalled condition)
  | .setNudgeObligations obligations, s => pure { s with nudgeObligations := obligations }
  | .setTeardownWait message, s => pure { s with message := some message }
  | .recordLifecycleMutation mutation, s => pure (s.recordLifecycleMutation mutation)
  | .setPlacementDecision placementDecision, s =>
    pure { s with placementDecision := some (s.placementDecision.getD placementDecision) }
  | .bootstrap snapshot ref workflows work crewWork dispatch phase startedAt, s =>
    pure (s.bootstrap names snapshot ref workflows work crewWork dispatch phase startedAt)
  | .backfillCrewWork crewWork overrides, s => pure (s.backfillCrewWork crewWork overrides)
  | .failInit phase message finishedAt, s => pure (s.failInit phase message finishedAt)
  | .advanceWorkToReady ready, s => pure (s.advanceWorkToReady ready)
  | .failConvoy cancelledWork finishedAt message, s =>
    pure (s.failConvoy cancelledWork finishedAt message)
  | .rollUpPhase phase startedAt finishedAt, s => pure (s.rollUpPhase phase startedAt finishedAt)
  | .recordLandingEvent none, s => pure s.markEventEmitted
  | .recordLandingEvent (some transition), s =>
    pure (s.guarded (transition.exempt s) (body names transition)).markEventEmitted
  | .settle evidence disposition mismatches finishedAt, s =>
    s.settle evidence disposition mismatches finishedAt
  | .setSettlementAttention attention, s => pure { s with attention }
  | .observeTurnHookHealth reason observedAt, s =>
    pure (s.observeTurnHookHealth reason observedAt)
  | .queueSupervisorTurn turn, s => pure (s.queueSupervisorTurn turn)
  | .acknowledgeSupervisorTurn messageId, s => pure (s.acknowledgeSupervisorTurn messageId)
  | .workLaunching work startedAt placement, s => pure (s.workLaunching work startedAt placement)
  | .workRunning work startedAt roles, s => pure (s.workRunning work startedAt roles)
  | .workProvisioningRetry work retry message, s =>
    pure (s.workProvisioningRetry work retry message)
  | .workInterrupted work roles message, s => pure (s.workInterrupted work roles message)
  | .forceWorkCompleted work finishedAt message, s => s.forceWorkCompleted work finishedAt message
  | .markWorkFailed work finishedAt message, s => s.markWorkFailed work finishedAt message
  | .markWorkCancelled work finishedAt, s => s.markWorkCancelled work finishedAt
  | .markConvoyAbandoned expectedPhase finishedAt authority reason, s =>
    s.markConvoyAbandoned expectedPhase finishedAt authority reason
  | .deriveCrewDone vessel role at_ engine, s => s.deriveCrewDone vessel role at_ engine
  | .markCrewCompleted vessel role finishedAt message disposition ref digest active forcedBy, s =>
    s.markCrewCompleted vessel role finishedAt message disposition ref digest active forcedBy
  | .markCrewFailed vessel role finishedAt message, s =>
    pure (s.markCrewFailed vessel role finishedAt message)
  | .markCrewStalled convoy vessel role at_ reason disposition message, s =>
    s.markCrewStalled convoy vessel role at_ reason disposition message
  | .handoffCrewWork vessel sender target handedOffAt message, s =>
    s.handoffCrewWork vessel sender target handedOffAt message
  | .resumeCrewWork intent vessel role resumedAt prompt briefId, s =>
    s.resumeCrewWork intent vessel role resumedAt prompt briefId
  | .queueMessageFollowUp vessel role message, s =>
    pure (s.modifyCrew vessel role fun state => { state with pendingFollowUp := message })
  | .beginMessageFollowUp vessel role message content claim, s =>
    s.beginMessageFollowUp vessel role message content claim
  | .recordTurnDelivery source episode vessel role prompt, s =>
    s.recordTurnDelivery source episode vessel role prompt
  | .observeQueuedTurnDeliveries observations observedAt, s =>
    pure (s.observeQueuedTurnDeliveries names observations observedAt)
  | .failTurnDelivery source failure, s => pure (s.failTurnDelivery source failure)
  | .refuseTurnDelivery source episode attention, s =>
    pure (s.refuseTurnDelivery source episode attention)
  | .rollUpWork work phase transitionedAt message, s =>
    pure (s.rollUpWork work phase transitionedAt message)

/-- Apply a patch to whatever the status then is. -/
def apply (names : Spelling) (patch : ConvoyStatusPatch) (s : ConvoyStatus) : ConvoyStatus :=
  s.guarded (patch.exempt s) (patch.body names)

end ConvoyStatusPatch

end Flotilla.Status
