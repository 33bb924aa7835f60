import Flotilla.Status.Patch

/-!
# A pass of the convoy reconciler

A pass reads a convoy with its status, its workflow template, its vessels and
checkouts and what was judged of its settlement, and returns at most one status
patch, next to the actions on vessels and checkouts and the events it reports.
It writes nothing itself: the patch is applied later, to whatever the status
then is.

The rules are tried in the order of the code and the first one with something to
say wins: runtime evidence, terminal statuses, a changed workflow reference,
bootstrap, crew members without a state, failed work, vessels, crew roll-up,
readiness, the phase of the convoy.

* `World` : what a pass reads besides the status.
* `vesselOutcome` : the loop over the requirements of the workflow; a requirement
  either lets the loop go on with more actions or ends it.
* `reconcileInternal` : the pass.
-/

namespace Flotilla.Status

open Lib

/-! ### What a pass reads -/

abbrev ValidationError := Stored

structure WorkflowTemplateSpec where
  inputs : List String
  turnDelivery : List (String × TurnDeliveryRule)
  vessels : List VesselRequirement
  /-- What only the validation reads. -/
  declarations : Stored
  deriving DecidableEq

structure WorkflowTemplate where
  name : String
  resourceVersion : String
  spec : WorkflowTemplateSpec
  deriving DecidableEq

/-- What is read out of texts, besides addresses and times. -/
structure Texts extends Spelling where
  /-- The errors of a template; none if it is valid. -/
  validate : WorkflowTemplateSpec → List ValidationError
  debug : List ValidationError → String
  /-- The fulfilment kind of each vessel in the annotation that pins placements. -/
  vesselPlacements : String → Option (BTreeMap String String)

structure ConvoyRepositorySpec where
  repoRef : String
  targetRef : String
  deriving DecidableEq

structure Convoy where
  name : String
  namespace_ : String
  annotations : BTreeMap String String
  workflowRef : String
  inputs : BTreeMap String String
  placementPolicy : Option String
  repositories : List ConvoyRepositorySpec
  adoptedCheckoutRefs : BTreeMap String String
  promises : List DispatchPromise
  deriving DecidableEq

def ensuredFromAnnotationKey : String := "flotilla.work/ensured-from"

def placementSnapshotAnnotationKey : String := "flotilla.work/placement-snapshot"

def vesselPlacementsAnnotationKey : String := "flotilla.work/vessel-placements"

def Convoy.isEnsured (convoy : Convoy) : Bool :=
  convoy.annotations.contains ensuredFromAnnotationKey

def Convoy.pinnedPlacementRef (convoy : Convoy) : Option String :=
  convoy.annotations[placementSnapshotAnnotationKey]?.or convoy.placementPolicy

def Convoy.vesselPlacementPin (texts : Texts) (convoy : Convoy) (vessel : String) :
    Option String := do
  let encoded ← convoy.annotations[vesselPlacementsAnnotationKey]?
  let pins ← texts.vesselPlacements encoded
  pins[vessel]?

inductive VesselPhase where
  | pending
  | provisioning
  | ready
  | interrupted
  | lost
  | failed
  deriving DecidableEq

structure VesselStatus where
  phase : VesselPhase
  message : Option String := none
  interruptedRoles : BTreeSet String := ∅
  runtimeObservation : Option EnvironmentRuntimeObservation := none
  placementDecision : Option Stored := none
  configuredLimits : Option Stored := none
  environmentRef : Option String := none
  imageRef : Option String := none
  localImageId : Option String := none
  registryDigest : Option String := none
  /-- Absent where there are none. -/
  checkoutRefs : Option Stored := none
  /-- Absent where there are none. -/
  terminalSessionRefs : Option Stored := none
  observedKindRef : Option String := none
  requestedStance : Option Stored := none
  effectiveStance : Option Stored := none
  deriving DecidableEq

structure VesselSpec where
  convoyRef : String
  vesselName : String
  fulfilmentKindRef : String
  adoptedCheckoutRefs : BTreeMap String String
  deriving DecidableEq

structure Vessel where
  name : String
  deletionTimestamp : Option DateTime
  spec : VesselSpec
  status : Option VesselStatus
  deriving DecidableEq

def Vessel.phase (vessel : Vessel) : Option VesselPhase := vessel.status.map (·.phase)

def vesselResourceName (convoyName vessel : String) : String := convoyName ++ "-" ++ vessel

inductive LifecycleAuthority where
  | observed
  | adopted
  | managed
  deriving DecidableEq

def LifecycleAuthority.ofLabelValue (value : String) : Except String LifecycleAuthority :=
  if value = "observed" then .ok .observed
  else if value = "adopted" then .ok .adopted
  else if value = "managed" then .ok .managed
  else .error ("invalid lifecycle authority '" ++ value ++ "'")

structure LandedEvidence where
  changeRequestId : String
  targetRef : Option String
  deriving DecidableEq

structure Checkout where
  name : String
  deletionTimestamp : Option DateTime
  authorityLabel : Option String
  repoRef : String
  landedEvidence : Option LandedEvidence
  deriving DecidableEq

def Checkout.lifecycleAuthority (checkout : Checkout) : Except String (Option LifecycleAuthority) :=
  match checkout.authorityLabel with
  | some value => (LifecycleAuthority.ofLabelValue value).map some
  | none => .ok none

structure LifecycleConditions where
  exitDisposition : Option String
  reclaimEligible : Bool
  settlementEvidence : Option Stored
  deriving DecidableEq

/-- What a pass reads besides the status. -/
structure World where
  convoy : Convoy
  template : Option WorkflowTemplate
  vessels : BTreeMap String Vessel
  checkouts : BTreeMap String Checkout
  conditions : LifecycleConditions
  now : DateTime

/-- The vessel object of a requirement. -/
def World.vesselOf (w : World) (work : String) : Option Vessel :=
  w.vessels[vesselResourceName w.convoy.name work]?

/-! ### What a pass returns -/

inductive ConvoyEvent where
  | landingEntered (entry : LandingEntry)
  | phaseChanged (before after : ConvoyPhase)
  | workPhaseChanged (work : String) (before after : WorkPhase)
  | templateNotFound (name : String)
  | templateInvalid (name : String) (errors : List ValidationError)
  | workflowRefChanged (before after : String)
  | missingInput (name : String)
  deriving DecidableEq

structure OwnerReference where
  apiVersion : String
  kind : String
  name : String
  controller : Bool
  deriving DecidableEq

structure InputMeta where
  name : String
  labels : BTreeMap String String
  ownerReferences : List OwnerReference
  deriving DecidableEq

inductive Actuation where
  | createVessel (metadata : InputMeta) (spec : VesselSpec)
  | deleteVessel (name : String)
  | deleteCheckout (name : String)
  deriving DecidableEq

structure InternalReconcileOutcome where
  patch : Option ConvoyStatusPatch := none
  actuations : List Actuation := []
  events : List ConvoyEvent := []

/-! ### Retries -/

/-- Thirty seconds. -/
def provisioningRetryInitial : Int := 30 * 1000000000

/-- Fifteen minutes. -/
def provisioningRetryMaximum : Int := 15 * 60 * 1000000000

def provisioningRetryDelay (attempts : Nat) : Int :=
  min (provisioningRetryInitial * 2 ^ min (attempts - 1) 31) provisioningRetryMaximum

namespace ControllerRetry

def nextAttemptAt (retry : ControllerRetry) : Option DateTime :=
  match retry.disposition with
  | .retryable nextAttemptAt => some nextAttemptAt
  | .terminal _ => none

def retryable (previous : Option ControllerRetry) (now : DateTime) : ControllerRetry :=
  let attempts := match previous with
    | some retry => min (retry.attempts + 1) (2 ^ 32 - 1)
    | none => 1
  { attempts
    firstFailureAt := (previous.map (·.firstFailureAt)).getD now
    disposition := .retryable (now + provisioningRetryDelay attempts) }

end ControllerRetry

/-! ### Bootstrap -/

section Interpolation

/-- The text before and after the first place where `mark` stands. -/
def cutAt (mark : List Char) : List Char → Option (List Char × List Char)
  | [] => none
  | c :: rest =>
    if mark.isPrefixOf (c :: rest) then some ([], (c :: rest).drop mark.length)
    else (cutAt mark rest).map fun parts => (c :: parts.1, parts.2)

def tokenOpen : List Char := ['\x7b', '\x7b']

def tokenClose : List Char := ['\x7d', '\x7d']

/-- Every token with a value is replaced by it; the others and a token that is not closed stay.
Each token drops characters, so the length of the text bounds them. -/
def interpolateAt (value : String → Option String) : Nat → List Char → List Char
  | 0, text => text
  | fuel + 1, text =>
    match cutAt tokenOpen text with
    | none => text
    | some (before, rest) =>
      match cutAt tokenClose rest with
      | none => text
      | some (token, after) =>
        before ++ (match value (String.ofList token) with
          | some value => value.toList
          | none => tokenOpen ++ token ++ tokenClose) ++ interpolateAt value fuel after

def interpolationValue (convoy : Convoy) (token : String) : Option String :=
  match (token.toList.splitOn '.').map String.ofList with
  | [first, second] =>
    if first = "inputs" then convoy.inputs[second]?
    else if first = "workflow" ∧ second = "name" then some convoy.name
    else if first = "workflow" ∧ second = "namespace" then some convoy.namespace_
    else none
  | _ => none

def interpolateTemplateText (convoy : Convoy) (text : String) : String :=
  String.ofList (interpolateAt (interpolationValue convoy) text.toList.length text.toList)

end Interpolation

def instantiateProcess (convoy : Convoy) (process : CrewSpec) : CrewSpec :=
  { process with
    source := match process.source with
      | .agent prompt => .agent (prompt.map (interpolateTemplateText convoy))
      | .tool command => .tool (interpolateTemplateText convoy command) }

/-- The states of the agents of a crew, in list order. -/
def freshCrew (crew : List CrewSpec) : BTreeMap String CrewWorkState :=
  .ofList ((crew.filter (·.source.isAgent)).map fun member =>
    (member.role, { phase := .pending })) compare

def failInitOutcome (now : DateTime) (message : String) (event : ConvoyEvent) :
    InternalReconcileOutcome :=
  { patch := some (.failInit .failed message now), events := [event] }

variable (texts : Texts) (w : World) (status : ConvoyStatus)

def bootstrapOutcome : InternalReconcileOutcome :=
  match w.template with
  | none =>
    failInitOutcome w.now ("WorkflowTemplate '" ++ w.convoy.workflowRef ++ "' not found")
      (.templateNotFound w.convoy.workflowRef)
  | some template =>
    let errors := texts.validate template.spec
    if errors ≠ [] then
      failInitOutcome w.now
        ("WorkflowTemplate '" ++ w.convoy.workflowRef ++ "' is invalid: " ++ texts.debug errors)
        (.templateInvalid template.name errors)
    else match template.spec.inputs.find? fun input => !w.convoy.inputs.contains input with
      | some input =>
        failInitOutcome w.now ("missing input '" ++ input ++ "'") (.missingInput input)
      | none =>
        { patch := some (.bootstrap
            { turnDelivery := template.spec.turnDelivery
              vessels := template.spec.vessels.map fun vessel =>
                { vessel with crew := vessel.crew.map (instantiateProcess w.convoy) } }
            w.convoy.workflowRef
            (.ofList [(w.convoy.workflowRef, template.resourceVersion)] compare)
            (.ofList (template.spec.vessels.map fun vessel =>
              (vessel.name, { phase := .pending })) compare)
            (.ofList (template.spec.vessels.map fun vessel =>
              (vessel.name, freshCrew vessel.crew)) compare)
            w.convoy.promises .pending none) }

/-! ### Crew members without a state -/

namespace VesselRequirement

def firstAgentIndex (vessel : VesselRequirement) : Option Nat :=
  vessel.crew.findIdx? (·.source.isAgent)

def startsEagerly (vessel : VesselRequirement) (index : Nat) : Bool :=
  vessel.crew[index]?.any fun member =>
    !member.source.isAgent || vessel.firstAgentIndex = some index

/-- The roles whose sessions the vessel creates up front. -/
def eagerlyStartedRoles (vessel : VesselRequirement) : BTreeSet String :=
  .ofList ((vessel.crew.zipIdx.filter fun member => vessel.startsEagerly member.2).map
    (·.1.role)) compare

end VesselRequirement

/-- The agents of a requirement that have no state yet. -/
def missingCrew (vessel : VesselRequirement) : BTreeMap String CrewWorkState :=
  let work := status.work[vessel.name]?
  .ofList ((vessel.crew.zipIdx.filter fun member =>
      member.1.source.isAgent &&
        status.crewWork[vessel.name]?.all fun crew => !crew.contains member.1.role).map
    fun member =>
      -- A latent agent has no session even once the vessel is running.
      if work.any (·.phase = .running) && vessel.startsEagerly member.2 then
        (member.1.role, { phase := .working, startedAt := work >>= (·.startedAt) })
      else (member.1.role, { phase := .pending })) compare

def backfillCrewWorkOutcome : Option InternalReconcileOutcome :=
  status.workflowSnapshot >>= fun snapshot =>
    let lacking := snapshot.vessels.filter fun vessel => !(missingCrew status vessel).isEmpty
    if lacking = [] then none
    else some
      { patch := some (.backfillCrewWork
          (.ofList (lacking.map fun vessel => (vessel.name, missingCrew status vessel)) compare)
          (.ofList ((lacking.filter fun vessel =>
            status.work[vessel.name]?.any (·.phase = .complete)).map (·.name)) compare)) }

/-! ### Failed work -/

def failFastOutcome (now : DateTime) : Option InternalReconcileOutcome :=
  let failed := status.work.toList.filter fun item => item.2.phase = .failed
  if failed = [] then none
  else
    let cancelled := status.work.toList.filter fun item => !item.2.phase.isTerminal
    some
      { patch := some (.failConvoy (.ofList (cancelled.map fun item => (item.1, now)) compare) now
          (some ((failed.findSome? (·.2.message)).getD "work failure detected")))
        events :=
          (if status.phase ≠ .failed then [.phaseChanged status.phase .failed] else []) ++
            cancelled.map fun item => .workPhaseChanged item.1 item.2.phase .cancelled }

/-! ### Vessels -/

def convoyLabel : String := "flotilla.work/convoy"

def vesselLabel : String := "flotilla.work/vessel"

def createVesselOutcome (vessel : String) : Option InternalReconcileOutcome := do
  let fulfilmentKindRef ← (w.convoy.vesselPlacementPin texts vessel).or w.convoy.pinnedPlacementRef
  let snapshot ← status.workflowSnapshot
  let requirement ← snapshot.vessels.find? (·.name = vessel)
  let repositoryRefs := requirement.repositoryRefs.getD (w.convoy.repositories.map (·.repoRef))
  pure
    { actuations := [.createVessel
        { name := vesselResourceName w.convoy.name vessel
          labels := .ofList [(convoyLabel, w.convoy.name), (vesselLabel, vessel)] compare
          ownerReferences := [⟨"flotilla.work/v1", "Convoy", w.convoy.name, true⟩] }
        { convoyRef := w.convoy.name
          vesselName := vessel
          fulfilmentKindRef
          adoptedCheckoutRefs := w.convoy.adoptedCheckoutRefs.filter fun repoRef _ =>
            repoRef ∈ repositoryRefs }] }

def Vessel.failureMessage (vessel : Vessel) : String :=
  (vessel.status >>= (·.message)).getD ("vessel " ++ vessel.name ++ " failed")

def Vessel.lostMessage (vessel : Vessel) : String :=
  (vessel.status >>= (·.message)).getD
    "lost, recoverable: environment disappeared; rehydration is not available yet (#2872)"

def Vessel.interruptedMessage (vessel : Vessel) : String :=
  (vessel.status >>= (·.message)).getD ("vessel " ++ vessel.name ++ " was interrupted")

def failedVesselOutcome (state : WorkState) (work : String) (vessel : Vessel)
    (actuations : List Actuation) : InternalReconcileOutcome :=
  if !w.convoy.isEnsured then
    { patch := some (.markWorkFailed work w.now vessel.failureMessage)
      actuations
      events := [.workPhaseChanged work state.phase .failed] }
  else match state.provisioningRetry with
    | some retry =>
      { patch :=
          if state.message ≠ some vessel.failureMessage then
            some (.workProvisioningRetry work retry vessel.failureMessage)
          else none
        actuations :=
          if retry.nextAttemptAt.any (· ≤ w.now) && vessel.deletionTimestamp.isNone then
            actuations ++ [.deleteVessel vessel.name]
          else actuations }
    | none =>
      { patch := some (.workProvisioningRetry work (.retryable none w.now) vessel.failureMessage)
        actuations
        events := [.workPhaseChanged work state.phase .interrupted] }

/-- `insert_optional_field`. -/
def insertOptionalField (fields : BTreeMap String Stored) (key : String) (value : Option Stored) :
    BTreeMap String Stored :=
  match value with
  | some value => fields.insert key value
  | none => fields

def placementStatus (vessel : Vessel) : BTreeMap String Stored :=
  let fields : BTreeMap String Stored := .ofList [("vessel_ref", vessel.name)] compare
  match vessel.status with
  | none => fields
  | some status =>
    [("placement_decision", status.placementDecision),
      ("configured_limits", status.configuredLimits),
      ("environment_ref", status.environmentRef),
      ("image_ref", status.imageRef),
      ("local_image_id", status.localImageId),
      ("registry_digest", status.registryDigest),
      ("checkout_refs", status.checkoutRefs),
      ("terminal_session_refs", status.terminalSessionRefs),
      ("fulfilment_kind_ref", status.observedKindRef.or (some vessel.spec.fulfilmentKindRef)),
      ("requested_stance", status.requestedStance),
      ("effective_stance", status.effectiveStance)].foldl
      (fun fields field => insertOptionalField fields field.1 field.2) fields

/-- What a requirement comes to: `error` is the outcome the loop returns, `ok` the actions it goes
on with. -/
abbrev VesselFlow := Except InternalReconcileOutcome (List Actuation)

section Requirement

variable (requirement : VesselRequirement)
  (state : WorkState) (actuations : List Actuation)

/-- A transition of the work item of the requirement. -/
def transition (patch : ConvoyStatusPatch) (after : WorkPhase) : VesselFlow :=
  .error
    { patch := some patch
      actuations
      events := [.workPhaseChanged requirement.name state.phase after] }

def lostVessel (vessel : Vessel) : VesselFlow :=
  if state.phase.isTerminal then .ok actuations
  else if state.phase = .interrupted ∧ state.message = some vessel.lostMessage then .ok actuations
  else
    transition requirement state actuations
      (.workInterrupted requirement.name
        (.ofList ((status.crewWork[requirement.name]?.map (·.keys)).getD []) compare)
        vessel.lostMessage) .interrupted

/-- Work that waits for its vessel: a ready vessel lets it go on, a missing one is created. -/
def awaitVessel (vessel : Option Vessel) (goOn : Vessel → VesselFlow) : VesselFlow :=
  match vessel with
  | some vessel =>
    if vessel.phase = some .failed then
      .error (failedVesselOutcome w state requirement.name vessel actuations)
    else if vessel.phase = some .ready then goOn vessel
    else .ok actuations
  | none =>
    match createVesselOutcome texts w status requirement.name with
    | some outcome =>
      if outcome.patch.isSome then .error outcome else .ok (actuations ++ outcome.actuations)
    | none => .ok actuations

def workRunningOutcome : VesselFlow :=
  transition requirement state actuations
    (.workRunning requirement.name w.now requirement.eagerlyStartedRoles) .running

def runningVessel (vessel : Option Vessel) : VesselFlow :=
  match vessel with
  | some vessel =>
    if vessel.phase = some .failed then
      .error (failedVesselOutcome w state requirement.name vessel actuations)
    else if vessel.phase = some .interrupted then
      transition requirement state actuations
        (.workInterrupted requirement.name
          ((vessel.status.map (·.interruptedRoles)).getD ∅) vessel.interruptedMessage) .interrupted
    else .ok actuations
  | none =>
    if w.convoy.isEnsured ∧ state.phase = .running then
      transition requirement state actuations
        (.rollUpWork requirement.name .stalled w.now
          (some ("vessel observation missing for " ++ requirement.name ++
            "; backing death is unverified"))) .stalled
    else .ok actuations

def interruptedVessel (vessel : Option Vessel) : VesselFlow :=
  match vessel with
  | some vessel =>
    if vessel.phase = some .failed then
      .error (failedVesselOutcome w state requirement.name vessel actuations)
    else if vessel.phase = some .ready then workRunningOutcome w requirement state actuations
    else .ok actuations
  | none =>
    if !w.convoy.isEnsured then .ok actuations
    else if state.provisioningRetry.any fun retry => retry.nextAttemptAt.any (w.now < ·) then
      .ok actuations
    else
      let patch := ConvoyStatusPatch.workProvisioningRetry requirement.name
        (.retryable state.provisioningRetry w.now)
        (state.message.getD ("vessel " ++ requirement.name ++ " disappeared"))
      -- The next attempt is reserved in this pass; what was collected so far is dropped.
      if state.provisioningRetry.isSome then
        match createVesselOutcome texts w status requirement.name with
        | some outcome => .error { outcome with patch := some patch }
        | none => .ok actuations
      else .error { patch := some patch }

end Requirement

/-- The vessel is being deleted and has not failed: it still occupies the requirement. -/
def Vessel.occupies (vessel : Vessel) : Bool :=
  vessel.deletionTimestamp.isSome && vessel.phase ≠ some .failed

def requirementOutcome (actuations : List Actuation) (requirement : VesselRequirement) :
    VesselFlow :=
  match status.work[requirement.name]? with
  | none => .ok actuations
  | some state =>
    let vessel := w.vesselOf requirement.name
    match vessel.filter (·.phase = some .lost) with
    | some vessel => lostVessel status requirement state actuations vessel
    | none =>
      if vessel.any (·.occupies) then .ok actuations
      else match state.phase with
        | .ready =>
          awaitVessel texts w status requirement state actuations vessel fun vessel =>
            transition requirement state actuations
              (.workLaunching requirement.name w.now (placementStatus vessel)) .launching
        | .launching =>
          awaitVessel texts w status requirement state actuations vessel fun _ =>
            workRunningOutcome w requirement state actuations
        | .running | .stalled => runningVessel w requirement state actuations vessel
        | .interrupted => interruptedVessel texts w status requirement state actuations vessel
        | .pending | .complete | .failed | .cancelled | .abandoned => .ok actuations

def vesselOutcome : InternalReconcileOutcome :=
  match status.workflowSnapshot with
  | none => {}
  | some snapshot =>
    match snapshot.vessels.foldlM (requirementOutcome texts w status) [] with
    | .ok actuations => { actuations }
    | .error outcome => outcome

/-! ### Crew roll-up -/

/-- The phase a work item goes to when no member of its crew failed. -/
def nextWorkPhase (phase : WorkPhase) (allDone anyStalled : Bool) : Option WorkPhase :=
  if allDone && !phase.isTerminal then some .complete
  else match phase, allDone, anyStalled with
    | .running, false, true => some .stalled
    | .stalled, false, false | .complete, false, false => some .running
    | _, _, _ => none

def rollUpOutcome (now : DateTime) (work : String) (before after : WorkPhase)
    (message : Option String) : InternalReconcileOutcome :=
  { patch := some (.rollUpWork work after now message)
    events := [.workPhaseChanged work before after] }

def rollUpWorkItem (work : String) (state : WorkState) : Option InternalReconcileOutcome :=
  if w.convoy.isEnsured ∧ state.phase = .stalled ∧ w.vesselOf work = none then none
  else match status.crewWork[work]?.filter fun crew => !crew.isEmpty with
    | none => none
    | some crew =>
      if state.completionAuthority = .humanOverride then none
      else match crew.toList.find? fun member => member.2.phase = .failed with
        | some (role, failed) =>
          let phase := if w.convoy.isEnsured then .stalled else .failed
          if state.phase ≠ phase then
            some (rollUpOutcome w.now work state.phase phase
              (some (failed.message.getD ("crew member `" ++ role ++ "` failed"))))
          else none
        | none =>
          (nextWorkPhase state.phase (crew.toList.all fun member => member.2.phase = .done)
            (crew.toList.any fun member => member.2.phase = .stalled)).map fun next =>
              rollUpOutcome w.now work state.phase next none

def rollUpCrewWorkOutcome : Option InternalReconcileOutcome :=
  status.work.toList.findSome? fun item => rollUpWorkItem w status item.1 item.2

/-! ### Readiness -/

/-- The requirement is pending and everything it depends on is complete. -/
def becomesReady (vessel : VesselRequirement) : Bool :=
  status.work[vessel.name]?.any (fun state => state.phase = .pending) &&
    vessel.dependsOn.all fun dependency =>
      status.work[dependency]?.any fun state => state.phase = .complete

def advanceReadyOutcome (now : DateTime) : Option InternalReconcileOutcome :=
  status.workflowSnapshot >>= fun snapshot =>
    let ready : BTreeMap String DateTime :=
      .ofList ((snapshot.vessels.filter (becomesReady status)).map fun vessel =>
        (vessel.name, now)) compare
    if ready.isEmpty then none
    else some
      { patch := some (.advanceWorkToReady ready)
        events := ready.keys.map fun work => .workPhaseChanged work .pending .ready }

/-! ### The phase of the convoy -/

/-- Every work item is complete and nothing promised is open. -/
def ConvoyStatus.allComplete : Bool :=
  !status.work.isEmpty && status.work.toList.all (fun item => item.2.phase = .complete) &&
    status.allPromises.all (·.state.terminal)

/-- The repository landed on another target than the one declared. -/
def targetMismatch (repository : ConvoyRepositorySpec) : Option TargetMismatch := do
  let checkout ← (w.checkouts.toList.map Prod.snd).find? (·.repoRef = repository.repoRef)
  let evidence ← checkout.landedEvidence
  let observedTargetRef ← evidence.targetRef
  if observedTargetRef ≠ repository.targetRef then
    some
      { repoRef := repository.repoRef
        changeRequestId := evidence.changeRequestId
        declaredTargetRef := repository.targetRef
        observedTargetRef }
  else none

def ConvoyStatus.anyInterrupted : Bool :=
  status.work.toList.any fun item => item.2.phase = .interrupted

def ConvoyStatus.anyProgressed : Bool :=
  status.work.toList.any fun item => item.2.phase ≠ .pending

/-- The exit the convoy leaves by, once it is landing and everything is complete. -/
def settlingExit : Option String :=
  if status.phase = .landing ∧ status.allComplete then w.conditions.exitDisposition else none

def rollUpPhaseOutcome : Option InternalReconcileOutcome :=
  match settlingExit w status with
  | some exitDisposition =>
    some
      { patch := some (.settle w.conditions.settlementEvidence exitDisposition
          (w.convoy.repositories.filterMap (targetMismatch w)) w.now)
        events := [.phaseChanged .landing .landed] }
  | none =>
    if status.anyInterrupted ∧ status.phase ≠ .interrupted then
      some
        { patch := some (.rollUpPhase .interrupted none none)
          events := [.phaseChanged status.phase .interrupted] }
    else if ¬ status.anyInterrupted ∧ status.phase = .interrupted then
      some
        { patch := some (.rollUpPhase .active none none)
          events := [.phaseChanged .interrupted .active] }
    else if status.anyProgressed ∧ status.phase = .pending then
      some
        { patch := some (.rollUpPhase .active (some w.now) none)
          events := [.phaseChanged .pending .active] }
    else none

/-! ### Cleaning up -/

/-- The vessels and then the checkouts that a reclaim deletes, each in name order. -/
def cleanupPlan (patch : Option ConvoyStatusPatch) : List Actuation :=
  let predicted := match patch with
    | some patch => patch.apply texts.toSpelling status
    | none => status
  if predicted.phase.isTerminal && w.conditions.reclaimEligible then
    ((((w.vessels.toList.map Prod.snd).filter (·.deletionTimestamp.isNone)).map
        (·.name)).insertionSort (· ≤ ·)).map .deleteVessel ++
      (((((w.checkouts.toList.map Prod.snd).filter (·.deletionTimestamp.isNone)).filter
        fun checkout => match checkout.lifecycleAuthority with
          | .ok (some .observed) | .ok (some .adopted) => false
          | _ => true).map (·.name)).insertionSort (· ≤ ·)).map .deleteCheckout
  else []

/-- The plan never holds a patch of its own. -/
def withCleanup (outcome : InternalReconcileOutcome) : InternalReconcileOutcome :=
  { outcome with
    actuations := outcome.actuations ++ cleanupPlan texts w status outcome.patch }

/-! ### The pass -/

/-- The runtime evidence of a vessel that the status does not hold yet. -/
def unseenObservation (vessel : Vessel) : Option (String × EnvironmentRuntimeObservation) := do
  let observation ← vessel.status >>= (·.runtimeObservation)
  let prior := status.environmentObservations[vessel.spec.vesselName]?
  let merged := (prior.getD {}).merge observation
  if prior ≠ some merged then some (vessel.spec.vesselName, merged) else none

/-- The rules that apply once the workflow is bootstrapped. -/
def workflowOutcome : InternalReconcileOutcome :=
  match (backfillCrewWorkOutcome status).or (failFastOutcome status w.now) with
  | some outcome => outcome
  | none =>
    let provisioning := vesselOutcome texts w status
    if provisioning.patch.isSome then provisioning
    else match ((rollUpCrewWorkOutcome w status).or (advanceReadyOutcome status w.now)).or
        (rollUpPhaseOutcome w status) with
      | some outcome => { outcome with actuations := provisioning.actuations }
      | none => provisioning

def reconcileInternalWithoutLandingEvent : InternalReconcileOutcome :=
  match (w.vessels.toList.map Prod.snd).findSome? (unseenObservation status) with
  | some (vessel, observation) => { patch := some (.observeEnvironment vessel observation) }
  | none =>
    if status.phase.isTerminal then withCleanup texts w status {}
    else match status.observedWorkflowRef with
      | none => bootstrapOutcome texts w
      | some observed =>
        if observed ≠ w.convoy.workflowRef then
          withCleanup texts w status
            (failInitOutcome w.now "workflow_ref changed after init; not supported"
              (.workflowRefChanged observed w.convoy.workflowRef))
        else withCleanup texts w status (workflowOutcome texts w status)

/-- A landing that was not reported yet is reported with the patch of the pass. -/
def reconcileInternal : InternalReconcileOutcome :=
  let outcome := reconcileInternalWithoutLandingEvent texts w status
  match status.landingEntry.filter fun entry => !entry.eventEmitted with
  | some entry =>
    { outcome with
      patch := some (.recordLandingEvent outcome.patch)
      events := .landingEntered entry :: outcome.events }
  | none => outcome

end Flotilla.Status
