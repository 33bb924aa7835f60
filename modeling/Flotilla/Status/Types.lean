import Flotilla.Lib.BTreeMap

/-!
# The stored status of a convoy

The record a convoy's controllers, its crew and its operators share, with the
types of its fields.  A value that the code only copies (a placement decision, a
naming, the evaluation of a settlement) is carried as its stored text.

* `ConvoyPhase`, `WorkPhase`, `CrewWorkPhase` : the three levels of progress,
  each with its terminal phases.
* `Promise` : what a crew member owes, with every attempt to keep it.
* `ConvoyStatus` : the record.
-/

namespace Flotilla.Status

open Lib

/-- A value the code only copies, as its stored text. -/
abbrev Stored := String

/-- Nanoseconds since the epoch. -/
abbrev DateTime := Int

/-- The canonical text of an address. -/
abbrev Address := String

/-! ### Subjects -/

inductive SubjectKind where
  | changeRequest
  | issue
  deriving DecidableEq

inductive Relationship where
  | worksOn
  | produces
  | adopts
  | supersedes
  | references
  deriving DecidableEq

structure IssueSource where
  service : String
  scope : String
  deriving DecidableEq

structure Subject where
  kind : SubjectKind
  source : IssueSource
  id : String
  deriving DecidableEq

/-- How addresses and times are spelled, when no forge is declared. -/
structure Spelling where
  /-- The change request or issue that the text of a submission names. -/
  resolve : String → Option Address
  subjectFor : Address → Option Subject
  subjectAddress : Subject → Option Address
  rfc3339 : DateTime → String

/-- Two subjects name the same request; those that do not resolve are compared by spelling. -/
def Spelling.sameSubject (names : Spelling) (left right : Subject) : Bool :=
  match names.subjectAddress left, names.subjectAddress right with
  | some left, some right => left = right
  | _, _ => left = right

theorem Spelling.sameSubject_self (names : Spelling) (subject : Subject) :
    names.sameSubject subject subject = true := by
  unfold sameSubject
  cases names.subjectAddress subject <;> simp

inductive SubjectDiscoverySource where
  | branch
  | claim
  | relay
  | operator
  deriving DecidableEq

structure SubjectDiscovery where
  source : SubjectDiscoverySource
  at_ : DateTime
  deriving DecidableEq

structure DiscoveredSubject where
  subject : Subject
  relationship : Relationship
  sources : List SubjectDiscovery
  deriving DecidableEq

/-! ### Promises -/

inductive PromiseKind where
  | pr
  | decisionLedger
  deriving DecidableEq

def PromiseKind.asStr : PromiseKind → String
  | .pr => "pr"
  | .decisionLedger => "decision-ledger"

inductive PromiseSource where
  | template
  | dispatch
  | crew
  deriving DecidableEq

inductive PromiseState where
  | isOpen
  | submitted
  | kept
  | retracted
  deriving DecidableEq

def PromiseState.terminal : PromiseState → Bool
  | .kept | .retracted => true
  | .isOpen | .submitted => false

structure SubmissionVerdict where
  accepted : Bool
  who : String
  at_ : DateTime
  why : String
  deriving DecidableEq

structure Submission where
  reference : String
  metadata : BTreeMap String String
  submittedAt : DateTime
  verdict : Option SubmissionVerdict
  deriving DecidableEq

structure Promise where
  id : String
  vessel : String
  role : String
  source : PromiseSource
  kind : PromiseKind
  state : PromiseState
  retractionReason : Option String
  submissions : List Submission
  deriving DecidableEq

/-! ### The workflow a convoy runs -/

structure TurnDeliveryTarget where
  vessel : String
  role : String
  deriving DecidableEq

structure TurnDeliveryRule where
  target : TurnDeliveryTarget
  deriving DecidableEq

inductive CrewSource where
  | agent (prompt : Option String)
  | tool (command : String)
  deriving DecidableEq

def CrewSource.isAgent : CrewSource → Bool
  | .agent _ => true
  | .tool _ => false

structure CrewSpec where
  role : String
  source : CrewSource
  promises : List PromiseKind
  promiseExclusions : List PromiseKind
  deliverer : Bool
  deriving DecidableEq

structure VesselRequirement where
  name : String
  dependsOn : List String
  repositoryRefs : Option (List String)
  crew : List CrewSpec
  deriving DecidableEq

structure WorkflowSnapshot where
  turnDelivery : List (String × TurnDeliveryRule)
  vessels : List VesselRequirement
  deriving DecidableEq

structure DispatchPromise where
  label : String
  kind : PromiseKind
  vessel : String
  role : String
  deriving DecidableEq

/-! ### Who and what is referred to -/

structure PrincipalRef where
  namespace_ : String
  name : String
  deriving DecidableEq

structure ResourceRef where
  apiVersion : String
  kind : String
  namespace_ : String
  name : String
  host : Option String
  subresource : Option String
  deriving DecidableEq

inductive LeafAddress where
  | convoy (name : String)
  | vessel (name : String)
  | work (convoy work : String)
  | changeRequest (service scope : String) (number : Nat)
  | issue (service scope : String) (number : Nat)
  | usage (provider account : String)
  | artifact (convoy producer kind subject : String)
  deriving DecidableEq

inductive LeafOperator where
  | equal
  | notEqual
  | lessThan
  | lessThanOrEqual
  | greaterThan
  | greaterThanOrEqual
  deriving DecidableEq

structure Leaf where
  address : LeafAddress
  fieldPath : String
  operator : LeafOperator
  literal : String
  deriving DecidableEq

/-! ### Retries of a controller -/

inductive ControllerRetryDisposition where
  | retryable (nextAttemptAt : DateTime)
  | terminal (needs : String)
  deriving DecidableEq

structure ControllerRetry where
  attempts : Nat
  firstFailureAt : DateTime
  disposition : ControllerRetryDisposition
  deriving DecidableEq

structure RetryCeiling where
  attempts : Nat
  totalDuration : Nat
  deriving DecidableEq

/-! ### Stalls and nudges -/

inductive LeafMaker where
  | observed (refresher externalParty : String)
  | actor (vessel role : String)
  | supervisor (convoy vessel role : String)
  | controller (resourceKind : String) (name : Option String) (retry : ControllerRetry)
      (ceiling : RetryCeiling)
  deriving DecidableEq

inductive StallEvidenceSource where
  | screen
  | hook
  | observation
  | session
  | leafEngine
  | crew
  deriving DecidableEq

inductive StallCause where
  | capacity
  deriving DecidableEq

inductive StallReason where
  | infra
  | scope
  | decision
  | access
  | other
  deriving DecidableEq

inductive StallProposedDisposition where
  | resume
  | reduceScope
  | fail
  deriving DecidableEq

inductive StallRung where
  | nudge
  | supervisor
  | bosun
  | governor
  | operator
  deriving DecidableEq

structure StallSupervisor where
  convoy : String
  vessel : String
  role : String
  deriving DecidableEq

structure StallNudge where
  at_ : DateTime
  row : Leaf
  deriving DecidableEq

structure NudgeObligation where
  maker : LeafMaker
  leaves : List Leaf
  history : List StallNudge
  progress : BTreeMap String String
  quietSince : Option DateTime
  lastHookAt : Option DateTime
  lastAttentionAt : Option DateTime
  workingSince : Option DateTime
  replyAfter : Option DateTime
  lastToolActivityAt : Option DateTime
  messageId : Option String
  deliveredMessageId : Option String
  deriving DecidableEq

structure StalledCondition where
  leaves : List Leaf
  maker : Option LeafMaker
  evidence : String
  source : StallEvidenceSource
  cause : Option StallCause
  beganAt : DateTime
  rung : StallRung
  supervisor : Option StallSupervisor
  supervisionMessage : Option ResourceRef
  supervisionIndex : Option Nat
  supervisionExhausted : Bool
  reason : Option StallReason
  proposedDisposition : Option StallProposedDisposition
  nudgeHistory : List StallNudge
  deriving DecidableEq

/-! ### Turn deliveries -/

inductive TurnDeliveryRung where
  | warmSession
  | freshAgent
  deriving DecidableEq

inductive TurnDeliveryOutcome where
  | messageAccepted (newTurn : Bool) (message : ResourceRef) (rung : TurnDeliveryRung)
      (acceptedAt : DateTime)
  | queued (rung : TurnDeliveryRung) (queuedAt : DateTime) (vessel role messageId : String)
      (blockingReason : String)
  | delivered (rung : TurnDeliveryRung) (deliveredAt : DateTime)
  | refused (reason : String) (refusedAt : DateTime) (holdExecuted : Bool)
  deriving DecidableEq

structure TurnDeliveryEpisode where
  subjectRevision : String
  evidenceAt : DateTime
  judgedClaimAt : DateTime
  outcome : TurnDeliveryOutcome
  sender : Stored
  deriving DecidableEq

structure ConvoyAttention where
  source : String
  reason : String
  raisedAt : DateTime
  deriving DecidableEq

def ConvoyAttention.supervisorTurnSource : String := "supervisor-turn-delivery"

def ConvoyAttention.queuedTurnSource : String := "queued-turn-delivery"

def ConvoyAttention.missingTurnHookSource : String := "missing-turn-hook"

inductive TurnDeliveryFailureKind where
  | permanent
  | transient
  deriving DecidableEq

structure TurnDeliveryFailure where
  reason : String
  failedAt : DateTime
  kind : TurnDeliveryFailureKind
  attempts : Nat
  retryAt : DateTime
  deriving DecidableEq

structure PendingBrief where
  vessel : String
  role : String
  content : String
  queuedAt : DateTime
  sender : Stored
  deriving DecidableEq

/-- A message for a terminal; what is not its identity is carried as stored text. -/
structure TerminalCrewMessage where
  id : String
  content : Stored
  deriving DecidableEq

structure PendingSupervisorTurn where
  vessel : String
  role : String
  message : TerminalCrewMessage
  queuedOrder : Nat
  deriving DecidableEq

structure TurnDeliveryStatus where
  hold : Option ConvoyAttention := none
  failure : Option TurnDeliveryFailure := none
  episodes : List TurnDeliveryEpisode := []
  pendingBrief : Option PendingBrief := none
  pendingSupervisorTurn : Option PendingSupervisorTurn := none
  deriving DecidableEq

structure QueuedTurnObservation where
  source : String
  subjectRevision : String
  confirmed : Bool
  blockingReason : String
  deriving DecidableEq

/-! ### Progress -/

inductive ConvoyPhase where
  | pending
  | active
  | interrupted
  | landing
  | landed
  | failed
  | abandoned
  deriving DecidableEq

def ConvoyPhase.isTerminal : ConvoyPhase → Bool
  | .landed | .failed | .abandoned => true
  | .pending | .active | .interrupted | .landing => false

inductive WorkPhase where
  | pending
  | ready
  | launching
  | running
  | stalled
  | interrupted
  | complete
  | failed
  | cancelled
  | abandoned
  deriving DecidableEq

def WorkPhase.isTerminal : WorkPhase → Bool
  | .complete | .failed | .cancelled | .abandoned => true
  | .pending | .ready | .launching | .running | .stalled | .interrupted => false

inductive CrewWorkPhase where
  | pending
  | working
  | interrupted
  | stalled
  | done
  | handedBack
  | failed
  deriving DecidableEq

def CrewWorkPhase.isTerminal : CrewWorkPhase → Bool
  | .done | .handedBack | .failed => true
  | .pending | .working | .interrupted | .stalled => false

inductive WorkCompletionAuthority where
  | crewRollup
  | humanOverride
  | promises
  | principal (principal : PrincipalRef)
  | unattributed
  deriving DecidableEq

structure WorkState where
  provisioningRetry : Option ControllerRetry := none
  phase : WorkPhase
  completionAuthority : WorkCompletionAuthority := .crewRollup
  readyAt : Option DateTime := none
  startedAt : Option DateTime := none
  finishedAt : Option DateTime := none
  message : Option String := none
  placement : Option (BTreeMap String Stored) := none
  deriving DecidableEq

structure LandingTurn where
  source : String
  episode : TurnDeliveryEpisode
  deriving DecidableEq

structure CrewCompletionOverride where
  principal : PrincipalRef
  forcedAt : DateTime
  deriving DecidableEq

structure SupersededCrewClaim where
  claimedAt : DateTime
  message : Option String
  disposition : Option String
  decisionLedgerRef : Option String
  decisionLedgerDigest : Option String
  completionOverride : Option CrewCompletionOverride
  completedWhileCrewActive : Bool
  deriving DecidableEq

structure CrewWorkState where
  taskAssigned : Bool := false
  completionTurn : Option LandingTurn := none
  pendingFollowUp : Option ResourceRef := none
  phase : CrewWorkPhase
  completionAuthority : WorkCompletionAuthority := .crewRollup
  resumedAt : Option DateTime := none
  resumeBriefId : Option String := none
  startedAt : Option DateTime := none
  finishedAt : Option DateTime := none
  message : Option String := none
  disposition : Option String := none
  decisionLedgerRef : Option String := none
  decisionLedgerDigest : Option String := none
  supersededClaims : List SupersededCrewClaim := []
  completionOverride : Option CrewCompletionOverride := none
  completedWhileCrewActive : Bool := false
  claimEvidence : Option Stored := none
  completionRefusal : Option Stored := none
  deriving DecidableEq

inductive ConvoyProvisioningState where
  | notStarted
  | started (startedAt : DateTime)
  deriving DecidableEq

structure LandingClaim where
  vessel : String
  role : String
  claimedAt : Option DateTime
  message : Option String
  completedWhileCrewActive : Bool
  precedingTurn : Option LandingTurn
  deriving DecidableEq

structure LandingEntry where
  enteredAt : DateTime
  claims : List LandingClaim
  eventEmitted : Bool
  deriving DecidableEq

/-! ### Evidence about the environment -/

structure EnvironmentRuntimeObservation where
  configuredLimits : Option Stored := none
  containerId : Option String := none
  startedAt : Option String := none
  memoryLimits : Option Stored := none
  memoryUsageBytes : Option Nat := none
  memoryObservedAt : Option String := none
  termination : Option Stored := none
  deriving DecidableEq

namespace EnvironmentRuntimeObservation

/-- Both sides are known and they differ. -/
def differ (old new : Option String) : Bool :=
  match old, new with
  | some old, some new => old ≠ new
  | _, _ => false

/-- Another container or another start is a new incarnation, which inherits nothing; otherwise
what is observed replaces what was known and what is not observed stays. -/
def merge (self observation : EnvironmentRuntimeObservation) : EnvironmentRuntimeObservation :=
  if differ self.containerId observation.containerId || differ self.startedAt observation.startedAt
  then observation
  else
    { configuredLimits := observation.configuredLimits.or self.configuredLimits
      containerId := observation.containerId.or self.containerId
      startedAt := observation.startedAt.or self.startedAt
      memoryLimits := observation.memoryLimits.or self.memoryLimits
      memoryUsageBytes := observation.memoryUsageBytes.or self.memoryUsageBytes
      memoryObservedAt :=
        if observation.memoryUsageBytes.isSome then observation.memoryObservedAt
        else self.memoryObservedAt
      termination := observation.termination.or self.termination }

end EnvironmentRuntimeObservation

structure TargetMismatch where
  repoRef : String
  changeRequestId : String
  declaredTargetRef : String
  observedTargetRef : String
  deriving DecidableEq

/-! ### The record -/

structure ConvoyStatus where
  naming : Option Stored := none
  landingEntry : Option LandingEntry := none
  landingSettlement : Option Stored := none
  environmentObservations : BTreeMap String EnvironmentRuntimeObservation := ∅
  ensureAdmission : Option Stored := none
  phase : ConvoyPhase := .pending
  subjects : List DiscoveredSubject := []
  branchSubjectScanAt : Option DateTime := none
  branchSubjectScanError : Option String := none
  unlinkedSubjects : List Subject := []
  stalled : Option StalledCondition := none
  nudgeObligations : List NudgeObligation := []
  provisioning : Option ConvoyProvisioningState := none
  placementDecision : Option Stored := none
  workflowSnapshot : Option WorkflowSnapshot := none
  work : BTreeMap String WorkState := ∅
  crewWork : BTreeMap String (BTreeMap String CrewWorkState) := ∅
  promises : BTreeMap String (BTreeMap String (List Promise)) := ∅
  message : Option String := none
  startedAt : Option DateTime := none
  finishedAt : Option DateTime := none
  disposition : Option String := none
  observedWorkflowRef : Option String := none
  observedWorkflows : Option (BTreeMap String String) := none
  targetMismatches : List TargetMismatch := []
  turnDeliveries : BTreeMap String TurnDeliveryStatus := ∅
  attention : Option ConvoyAttention := none
  lifecycleMutations : List Stored := []
  deriving DecidableEq

namespace ConvoyStatus

/-- The state of one crew member. -/
def crewAt (s : ConvoyStatus) (vessel role : String) : Option CrewWorkState :=
  s.crewWork[vessel]? >>= fun crew => crew[role]?

/-- `crew_work.get_mut(vessel).and_then(|crew| crew.get_mut(role))`, changed in place. -/
def modifyCrew (s : ConvoyStatus) (vessel role : String) (f : CrewWorkState → CrewWorkState) :
    ConvoyStatus :=
  { s with crewWork := s.crewWork.modify vessel fun crew => crew.modify role f }

/-- `work.get_mut(work)`, changed in place. -/
def modifyWork (s : ConvoyStatus) (work : String) (f : WorkState → WorkState) : ConvoyStatus :=
  { s with work := s.work.modify work f }

/-- The promises a crew member holds. -/
def owned (s : ConvoyStatus) (vessel role : String) : List Promise :=
  (s.promises[vessel]? >>= fun crew => crew[role]?).getD []

/-- Every promise of the convoy. -/
def allPromises (s : ConvoyStatus) : List Promise :=
  s.promises.toList.flatMap fun crew => crew.2.toList.flatMap Prod.snd

end ConvoyStatus

end Flotilla.Status
