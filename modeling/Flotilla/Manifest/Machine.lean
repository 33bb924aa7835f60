import Flotilla.Engine.Machine

/-!
# Manifest roots

A manifest root declares a manifest tree's definitions.  Its scalar records (the
binding, the applied revision, the source error and when it was first recorded)
are the data of its one live state; its collections (baselines, refusals,
suspensions, resolutions and removals, by document) are part of the spec that only
its edges write.  A pass replaces the records of the documents it reached.
-/

namespace Flotilla.Manifest

open Lib
open Engine (Machine DeclaredEdge Handle StateValue RecordWrite)

/-! ### Records -/

inductive CharterSource where
  | repository (repo branch path : String)
  | localDirectory (directory : String)
  deriving DecidableEq, Repr

/-- Why a document was refused, and since when. -/
structure RefusalRecord where
  reason : String
  since : Timestamp
  deriving DecidableEq

inductive Act where
  | sync
  | adopt
  deriving DecidableEq, Repr

/-- Where a resolution stands: requested, claimed by the reconciler, then one settled outcome. -/
inductive Outcome where
  | requested
  | started
  | synced
  | adopted
  | failed (reason : String)
  deriving DecidableEq, Repr

def Outcome.settled : Outcome → Bool
  | .requested | .started => false
  | _ => true

structure ResolutionRecord where
  act : Act
  token : String
  requestedBy : String
  outcome : Outcome
  deriving DecidableEq

/-- A root as the engine stores it.  A document is named by its encoded key. -/
structure RootSpec where
  host : String
  path : String
  source : String
  baselines : BTreeMap String String := ∅
  refusals : BTreeMap String RefusalRecord := ∅
  suspended : BTreeSet String := ∅
  resolutions : BTreeMap String ResolutionRecord := ∅
  removals : BTreeMap String String := ∅

/-- The scalar records, the data of either state. -/
structure Scalars where
  binding : Option CharterSource
  applied : Option String
  sourceError : Option String
  sourceFailedAt : Option Timestamp
  deriving DecidableEq

inductive RootState where
  /-- Declared, and reconciled by its host. -/
  | bound (scalars : Scalars)
  /-- Its source was removed; its records stay for attribution. -/
  | retired (scalars : Scalars)
  deriving DecidableEq

def RootState.scalars : RootState → Scalars
  | .bound scalars | .retired scalars => scalars

inductive RootLabel where
  | bound
  | retired
  deriving DecidableEq, Repr

inductive RootDatum where
  | binding (value : Option CharterSource)
  | text (value : Option String)
  | time (value : Option Timestamp)
  deriving DecidableEq

instance : StateValue RootState RootLabel RootDatum where
  label
    | .bound _ => .bound
    | .retired _ => .retired
  data state :=
    [("binding", .binding state.scalars.binding), ("applied", .text state.scalars.applied),
      ("source_error", .text state.scalars.sourceError),
      ("source_failed_at", .time state.scalars.sourceFailedAt)]

/-! ### Edges -/

/-- One reconciliation pass: the documents it reached, with the baseline, refusal and removal it
recorded for each. -/
structure Applied where
  revision : String
  complete : Bool
  reached : BTreeSet String
  baselines : BTreeMap String String
  refusals : BTreeMap String String
  removals : BTreeMap String String

inductive RootEdge where
  | applied (applied : Applied)
  | sourceFailed (error : String)
  | suspend (document : String)
  | unsuspend (document : String)
  | requestResolution (document : String) (act : Act) (token requestedBy : String)
  | resolve (document token : String) (outcome : Outcome)
  | rebind (binding : Option CharterSource)
  | retire

inductive RootRefusal where
  | empty
  | unchanged
  | unreached
  | noRequest
  | unclaimed
  | settled
  | ended
  deriving DecidableEq, Repr

/-- The spec writes the root's edges make: each collection replaced whole. -/
inductive RootWrite where
  | baselines (before after : BTreeMap String String)
  | refusals (before after : BTreeMap String RefusalRecord)
  | suspended (before after : BTreeSet String)
  | resolutions (before after : BTreeMap String ResolutionRecord)
  | removals (before after : BTreeMap String String)

def RootWrite.on : RootWrite → RootSpec → RootSpec
  | .baselines _ after, spec => { spec with baselines := after }
  | .refusals _ after, spec => { spec with refusals := after }
  | .suspended _ after, spec => { spec with suspended := after }
  | .resolutions _ after, spec => { spec with resolutions := after }
  | .removals _ after, spec => { spec with removals := after }

instance : RecordWrite RootWrite RootSpec where
  field
    | .baselines .. => "baselines"
    | .refusals .. => "refusals"
    | .suspended .. => "suspended"
    | .resolutions .. => "resolutions"
    | .removals .. => "removals"
  apply write spec _ := .ok (write.on spec)

/-! ### A pass -/

/-- `current` with each of `replaced` taken from `other`, or removed where `other` has none. -/
def replace {V : Type} (current : BTreeMap String V) (replaced : BTreeSet String)
    (other : BTreeMap String V) : BTreeMap String V :=
  (current.filter fun name _ => !replaced.contains name) ∪
    (other.filter fun name _ => replaced.contains name)

namespace Applied

variable (applied : Applied)

/-- A complete pass replaces every record, another only those of what it reached. -/
def replacedIn (keys : List String) : BTreeSet String :=
  if applied.complete then .ofList (keys ++ applied.reached.toList) compare else applied.reached

/-- The documents that a pass records something about. -/
def recorded : List String :=
  applied.baselines.keys ++ applied.refusals.keys ++ applied.removals.keys

/-- A refusal that stands for the same reason keeps the time it began. -/
def refusalRecords (standing : BTreeMap String RefusalRecord) (now : Timestamp) :
    BTreeMap String RefusalRecord :=
  applied.refusals.map fun document reason =>
    { reason
      since := match standing[document]? with
        | some current => if current.reason = reason then current.since else now
        | none => now }

/-- The collections that a pass leaves. -/
def leaves (spec : RootSpec) (now : Timestamp) : RootSpec :=
  { spec with
    baselines := replace spec.baselines (applied.replacedIn spec.baselines.keys) applied.baselines
    refusals := replace spec.refusals (applied.replacedIn spec.refusals.keys)
      (applied.refusalRecords spec.refusals now)
    removals := replace spec.removals (applied.replacedIn spec.removals.keys) applied.removals
    suspended := if applied.complete then spec.suspended.filter (applied.reached.contains ·)
      else spec.suspended
    resolutions := if applied.complete
      then spec.resolutions.filter fun name _ => applied.reached.contains name
      else spec.resolutions }

/-- The scalar records that a pass leaves. -/
def leavesScalars (scalars : Scalars) : Scalars where
  binding := scalars.binding
  applied := if applied.complete then some applied.revision else scalars.applied
  sourceError := none
  sourceFailedAt := none

end Applied

/-- The records a pass leaves on a root at `now`, or the refusal. -/
def pass (spec : RootSpec) (state : RootState) (applied : Applied) (now : Timestamp) :
    Except RootRefusal (RootSpec × RootState) := do
  refuseIf (applied.recorded.any fun document => !applied.reached.contains document) .unreached
  refuseIf (applied.complete ∧ applied.revision = "") .empty
  return (applied.leaves spec now, .bound (applied.leavesScalars state.scalars))

/-- The two specs hold the same collections. -/
def RootSpec.sameRecords (spec other : RootSpec) : Prop :=
  spec.baselines = other.baselines ∧ spec.refusals = other.refusals ∧
    spec.suspended = other.suspended ∧ spec.resolutions = other.resolutions ∧
    spec.removals = other.removals

instance (spec other : RootSpec) : Decidable (spec.sameRecords other) :=
  inferInstanceAs (Decidable (_ ∧ _))

/-- The writes that turn the collections of one spec into those of another. -/
def writesBetween (spec after : RootSpec) : List RootWrite :=
  (if after.baselines ≠ spec.baselines then [.baselines spec.baselines after.baselines] else []) ++
  (if after.refusals ≠ spec.refusals then [.refusals spec.refusals after.refusals] else []) ++
  (if after.suspended ≠ spec.suspended then [.suspended spec.suspended after.suspended] else []) ++
  (if after.resolutions ≠ spec.resolutions then [.resolutions spec.resolutions after.resolutions]
    else []) ++
  (if after.removals ≠ spec.removals then [.removals spec.removals after.removals] else [])

/-! ### Gates and effects -/

abbrev RootHandle := Handle RootSpec RootState Unit

def gateApplied (applied : Applied) (h : RootHandle) : Except RootRefusal Unit := do
  let next ← pass h.spec h.state applied h.now
  refuseIf (next.1.sameRecords h.spec ∧ next.2 = h.state) .unchanged

def applyPass (applied : Applied) (h : RootHandle) : RootState × List RootWrite :=
  match pass h.spec h.state applied h.now with
  | .ok next => (next.2, writesBetween h.spec next.1)
  -- The gate refused.
  | .error _ => (h.state, [])

def gateSourceFailed (error : String) (h : RootHandle) : Except RootRefusal Unit := do
  refuseIf (error = "") .empty
  refuseIf (h.state.scalars.sourceError = some error) .unchanged

def sourceFailed (error : String) (h : RootHandle) : RootState × List RootWrite :=
  (.bound { h.state.scalars with sourceError := some error, sourceFailedAt := some h.now }, [])

def gateSuspend (document : String) (h : RootHandle) : Except RootRefusal Unit :=
  refuseIf (document ∈ h.spec.suspended) .unchanged

def suspend (document : String) (h : RootHandle) : RootState × List RootWrite :=
  (h.state, [.suspended h.spec.suspended (h.spec.suspended.insert document)])

def gateUnsuspend (document : String) (h : RootHandle) : Except RootRefusal Unit :=
  refuseIf (document ∉ h.spec.suspended) .unchanged

def unsuspend (document : String) (h : RootHandle) : RootState × List RootWrite :=
  (h.state, [.suspended h.spec.suspended (h.spec.suspended.erase document)])

def setResolution (h : RootHandle) (document : String) (record : ResolutionRecord) :
    List RootWrite :=
  [.resolutions h.spec.resolutions (h.spec.resolutions.insert document record)]

def gateRequestResolution (document token : String) (h : RootHandle) : Except RootRefusal Unit := do
  refuseIf (token = "") .empty
  refuseIf (h.spec.resolutions[document]?.any fun current => current.token = token) .unchanged

def requestResolution (document : String) (act : Act) (token requestedBy : String)
    (h : RootHandle) : RootState × List RootWrite :=
  (h.state, setResolution h document { act, token, requestedBy, outcome := .requested })

def gateResolve (document token : String) (outcome : Outcome) (h : RootHandle) :
    Except RootRefusal Unit := do
  let current ← okOr (h.spec.resolutions[document]?.filter fun current => current.token = token)
    .noRequest
  refuseIf current.outcome.settled .settled
  match outcome with
  | .requested => .error .empty
  | .started => refuseIf (current.outcome = .started) .unchanged
  | .failed reason => do
    refuseIf (reason = "") .empty
    refuseIf (current.outcome ≠ .started) .unclaimed
  | _ => refuseIf (current.outcome ≠ .started) .unclaimed

def resolve (document : String) (outcome : Outcome) (h : RootHandle) : RootState × List RootWrite :=
  match h.spec.resolutions[document]? with
  | some record => (h.state, setResolution h document { record with outcome })
  -- The gate found the request.
  | none => (h.state, [])

def gateRebind (binding : Option CharterSource) (h : RootHandle) : Except RootRefusal Unit :=
  refuseIf (h.state.scalars.binding = binding) .unchanged

def rootEdge : RootEdge →
    DeclaredEdge RootSpec RootState RootLabel Unit RootWrite RootRefusal
  | .applied applied => {
      fromLabels := [.bound], toLabels := [.bound]
      changes := ["applied", "source_error", "source_failed_at"]
      writes := ["baselines", "refusals", "suspended", "resolutions", "removals"]
      gate := gateApplied applied, effect := applyPass applied }
  | .sourceFailed error => {
      fromLabels := [.bound], toLabels := [.bound]
      changes := ["source_error", "source_failed_at"]
      gate := gateSourceFailed error, effect := sourceFailed error }
  | .suspend document => {
      fromLabels := [.bound], toLabels := [.bound], writes := ["suspended"]
      gate := gateSuspend document, effect := suspend document }
  | .unsuspend document => {
      fromLabels := [.bound], toLabels := [.bound], writes := ["suspended"]
      gate := gateUnsuspend document, effect := unsuspend document }
  | .requestResolution document act token requestedBy => {
      fromLabels := [.bound], toLabels := [.bound], writes := ["resolutions"]
      gate := gateRequestResolution document token
      effect := requestResolution document act token requestedBy }
  | .resolve document token outcome => {
      fromLabels := [.bound], toLabels := [.bound], writes := ["resolutions"]
      gate := gateResolve document token outcome, effect := resolve document outcome }
  | .rebind binding => {
      fromLabels := [.bound], toLabels := [.bound], changes := ["binding"]
      gate := gateRebind binding
      effect := fun h => (.bound { h.state.scalars with binding }, []) }
  | .retire => {
      fromLabels := [.bound], toLabels := [.retired]
      effect := fun h => (.retired h.state.scalars, []) }

/-- What declares a root. -/
structure RootRequest where
  host : String
  path : String
  source : String
  binding : Option CharterSource

/-- The ManifestRoot machine. -/
def root :
    Machine RootRequest RootSpec RootState RootLabel RootEdge Unit RootWrite RootRefusal where
  initial := .bound
  edge := rootEdge
  ends := [(.retired, "the root's source was removed")]
  ended _ _ := .ended
  wrongState _ _ := .ended
  admits _ _ request := .ok (
    { host := request.host, path := request.path, source := request.source },
    .bound { binding := request.binding, applied := none, sourceError := none,
             sourceFailedAt := none })

end Flotilla.Manifest
