import Flotilla.Definition.View
import Flotilla.Memory.Store

/-!
# The definition resolver

Reads merge the root's own row with every replica; writes replace the root's own
row and nothing else.  `applyAs`, `delete` and `updateMetadata` are the three
writes.  Each decides from the merged view what to author, stamps it with the
causal context of the rows it saw, and hands one row to the local stream.

The hooks of a kind that read other records (project hierarchy, siblings) can
only refuse a write; `admitApply` and `admitDelete` stand for them.  The kinds
the engine serves and the read-view backends take other paths and are not here.
-/

namespace Flotilla.Definition

open Lib
open Memory

variable {V S T : Type}

structure ReplicaRow (V S T : Type) where
  object : ResourceObject V S T
  lastSyncedAt : Timestamp

/-- What a root stores of one definitions kind: its own stream, and each other
origin's rows by name. -/
structure Definitions (V S T : Type) where
  store : ResourceStore V S T := {}
  replicas : BTreeMap NodeId (BTreeMap String (ReplicaRow V S T)) := ∅

/-- Hold another origin's row, replacing the one held before. -/
def Definitions.hold (d : Definitions V S T) (origin : NodeId) (name : String)
    (row : ReplicaRow V S T) : Definitions V S T :=
  { d with replicas := d.replicas.insert origin ((d.replicas[origin]?.getD ∅).insert name row) }

structure Resolver (V S T : Type) where
  K : DefinitionKind V S
  localRoot : NodeId
  ns : String
  eventRetention : EventRetention
  generation : Option String
  overflowChecks : Bool
  builtin : String → Option (ResourceObject V S T)
  validateNamespace : Bool
  initialStatus : InputMeta → Except ResourceError (Option T)
  validateSpec : InputMeta → S → Except ResourceError Unit
  validateSpecUpdate : S → S → Except ResourceError Unit
  validateSpecWithNamedSiblings :
    InputMeta → S → List (ResourceObject V S T) → Except ResourceError Unit
  tree : ResourceObject V S T → Lib.Json
  schema : Query.Schema
  sha256 : Sha256
  admitApply : Definitions V S T → InputMeta → S → Except ResourceError Unit
  admitDelete : Definitions V S T → String → Except ResourceError Unit

/-- A typed spec through `serde_json::Value` and back. -/
def transcode (K : DefinitionKind V S) (spec : S) : Except ResourceError S :=
  match K.toObject spec with
  | .error e => .error (.decode e)
  | .ok none => .error (.decode "expected a map")
  | .ok (some fields) =>
    match K.fromObject fields with
    | .error e => .error (.decode e)
    | .ok spec => .ok spec

variable [DecidableEq V]

def sameObject (K : DefinitionKind V S) (current requested : S) : Except ResourceError Bool :=
  match K.toObject current, K.toObject requested with
  | .error e, _ => .error (.decode s!"serialize current spec: {e}")
  | .ok _, .error e => .error (.decode s!"serialize requested spec: {e}")
  | .ok current, .ok requested => .ok (current = requested)

/-- The local stream the resolver writes to.  Its rows are typed, so reading one
back is reading what was transcoded on the way in. -/
def Resolver.stream (r : Resolver V S T) : Stream V S T where
  kind := {
    kind := r.K.kind
    replication := .definitions
    eventHistory := .configured
    validateNamespace := r.validateNamespace
    validateStored := fun _ => .ok ()
    initialStatus := r.initialStatus
    validateSpec := fun input spec => do
      r.validateSpec input (← transcode r.K spec)
    validateSpecUpdate := fun current requested => do
      r.validateSpecUpdate (← transcode r.K current) (← transcode r.K requested)
    validateStatusUpdate := fun _ _ => .ok ()
    validateSpecWithNamedSiblings := r.validateSpecWithNamedSiblings
    cloneSpec := transcode r.K
    cloneStatus := .ok
    specMatches := fun _ current _ requested => sameObject r.K current requested
    statusMatches := fun _ _ => .ok false
    serializes := fun _ => .ok ()
    tree := r.tree
    schema := r.schema
    sha256 := r.sha256 }
  ns := r.ns
  eventRetention := r.eventRetention
  generation := r.generation
  overflowChecks := r.overflowChecks

/-! ### Reads -/

def localSource (r : Resolver V S T) (d : Definitions V S T) (name : String) :
    Option (DefinitionSource V S T) :=
  d.store.objects[name]?.map fun object => ⟨object.stripped, r.localRoot, none⟩

def replicaSources (d : Definitions V S T) (name : String) : List (DefinitionSource V S T) :=
  d.replicas.toList.filterMap fun partition =>
    partition.2[name]?.map fun row => ⟨row.object.stripped, partition.1, some row.lastSyncedAt⟩

def sourcesForName (r : Resolver V S T) (d : Definitions V S T) (name : String) :
    List (DefinitionSource V S T) :=
  (localSource r d name).toList ++ replicaSources d name

variable [JsonValue V] (r : Resolver V S T) (d : Definitions V S T)

def get (name : String) : Except ResourceError (ResourceObject V S T) := do
  if let some builtin := r.builtin name then
    return builtin
  let sources := sourcesForName r d name
  if sources.isEmpty then
    throw (.notFound name)
  let object ← mergeSources r.K sources
  if definitionIsVisible object then
    return object
  throw (.notFound name)

/-! ### Writes -/

def refuseBuiltin (name : String) : Except ResourceError Unit :=
  match r.builtin name with
  | some _ => .error (.invalid (r.K.kind ++ " \x60" ++ name
      ++ "\x60 is built in and read-only; declare a variant under a new name"))
  | none => .ok ()

/-- Replace the root's own row, or create it. -/
def writeLocal (createdAt : Timestamp) (name : String) (input : InputMeta) (spec : S)
    (merge : MergeMetadata V) : Definitions V S T × Outcome (ResourceObject V S T) :=
  let written := match d.store.objects[name]? with
    | some row =>
      updateTypedWithMerge r.stream d.store input row.metadata.resourceVersion spec (some merge)
    | none => createTypedWithMerge r.stream createdAt d.store input spec (some merge)
  ({ d with store := written.1 }, written.2)

def emptyMerge : MergeMetadata V := { fields := ∅, seen := ∅, conflicts := ∅ }

/-- The stamp of the root's next write, given the context it saw. -/
def nextStamp (root : NodeId) (context : VersionVector NodeId) (writer : WriterIdentity)
    (now : Timestamp) : FieldMergeMetadata where
  dot := ⟨root, saturatingAdd (context.counter root) 1⟩
  seen := context
  writtenAt := now
  writer := some writer

/-- The row's stamps with the deletion marker authored now and nothing in conflict. -/
def restamp (merge : MergeMetadata V) (stamp : FieldMergeMetadata) : MergeMetadata V where
  fields := merge.fields.insert .deleted stamp
  seen := stamp.seen.insert stamp.dot.authorRoot stamp.dot.authorCounter
  conflicts := ∅

/-- What `apply_as` decides from the merged view before it writes. -/
structure ApplyDecision (V : Type) where
  fields : BTreeMap FieldPath FieldMergeMetadata
  changed : Bool

def decideApply (current : Option (ResourceObject V S T)) (currentSpec : Option (BTreeMap String V))
    (requested : BTreeMap String V) (admitted : InputMeta) (stamp : FieldMergeMetadata) :
    ApplyDecision V :=
  let merge := (current.bind fun object => object.metadata.merge).getD emptyMerge
  let metadataChanged := current.any fun object => object.metadata.toInputMeta ≠ admitted
  let valueChanged := fun (entry : String × V) =>
    decide (currentSpec.bind (fun fields => fields[entry.1]?) ≠ some entry.2)
  let hasValueChanges := requested.toList.any valueChanged
  let resolvesExistingView := current.isSome && !hasValueChanges
  let authored := fun (entry : String × V) =>
    valueChanged entry || (resolvesExistingView && merge.conflicts.contains (.spec entry.1))
      || current.isNone
  let deletionPending := merge.conflicts.contains .deleted
    || current.any fun object => object.metadata.deletionTimestamp.isSome
  { fields := requested.toList.foldl (fun fields entry =>
      if authored entry then fields.insert (.spec entry.1) stamp else fields) merge.fields
    changed := currentSpec.isNone || metadataChanged || requested.toList.any authored
      || deletionPending }

inductive ApplyPlan (V S T : Type) where
  | unchanged (current : ResourceObject V S T)
  | write (admitted : InputMeta) (merge : MergeMetadata V)

def mergedCurrent (K : DefinitionKind V S) (sources : List (DefinitionSource V S T)) :
    Except ResourceError (Option (ResourceObject V S T)) :=
  if sources.isEmpty then .ok none else (mergeSources K sources).map some

def currentFields (K : DefinitionKind V S) :
    Option (ResourceObject V S T) → Except ResourceError (Option (BTreeMap String V))
  | some object => (specObject K object.spec).map some
  | none => .ok none

/-- Return the view when nothing changed, else the row to write. -/
def concludeApply (current : Option (ResourceObject V S T)) (decision : ApplyDecision V)
    (admitted : InputMeta) (stamp : FieldMergeMetadata) : Except ResourceError (ApplyPlan V S T) :=
  let merge := (current.bind fun object => object.metadata.merge).getD emptyMerge
  if decision.changed then
    .ok (.write admitted (restamp { merge with fields := decision.fields } stamp))
  else
    match current with
    | some object => .ok (.unchanged object)
    | none => .error (.notFound admitted.name)

def planApply (writer : WriterIdentity) (input : InputMeta) (spec : S) (now : Timestamp) :
    Except ResourceError (ApplyPlan V S T) := do
  refuseBuiltin r input.name
  r.validateSpec input spec
  r.admitApply d input spec
  let sources := sourcesForName r d input.name
  let current ← mergedCurrent r.K sources
  let admitted := { input with deletionTimestamp := none }
  let requested ← specObject r.K spec
  let currentSpec ← currentFields r.K current
  let stamp := nextStamp r.localRoot (causalContext sources) writer now
  concludeApply current (decideApply current currentSpec requested admitted stamp) admitted stamp

def outcomeOf {α : Type} : Except ResourceError α → Outcome α
  | .ok a => .ok a
  | .error e => .error e

/-- Read the definition back once the row is written. -/
def thenGet (name : String) :
    Definitions V S T × Outcome (ResourceObject V S T) →
      Definitions V S T × Outcome (ResourceObject V S T)
  | (d, .ok _) => (d, outcomeOf (get r d name))
  | (d, outcome) => (d, outcome)

/-- `apply_as`, with the instants it reads for the stamp and for a created row. -/
def applyAs (writer : WriterIdentity) (input : InputMeta) (spec : S) (now createdAt : Timestamp) :
    Definitions V S T × Outcome (ResourceObject V S T) :=
  match planApply r d writer input spec now with
  | .error e => (d, .error e)
  | .ok (.unchanged current) => (d, .ok current)
  | .ok (.write admitted merge) =>
    thenGet r input.name (writeLocal r d createdAt input.name admitted spec merge)

def planDelete (name : String) : Except ResourceError (ResourceObject V S T) := do
  refuseBuiltin r name
  r.admitDelete d name
  if (sourcesForName r d name).isEmpty then .error (.notFound name)
  else mergeSources r.K (sourcesForName r d name)

/-- `delete`: a retained row whose deletion marker is authored now. -/
def delete (name : String) (now createdAt : Timestamp) : Definitions V S T × Outcome Unit :=
  match planDelete r d name with
  | .error e => (d, .error e)
  | .ok current =>
    let context := causalContext (sourcesForName r d name)
    let stamp := nextStamp r.localRoot context (.operatorWithSource "definition-delete") now
    let merge := restamp (current.metadata.merge.getD emptyMerge) stamp
    let input := { current.metadata.toInputMeta with deletionTimestamp := some now }
    let written := writeLocal r d createdAt name input current.spec merge
    (written.1, written.2.map fun _ => ())

/-- `update_metadata`: the merged row under new metadata, authoring nothing. -/
def updateMetadata (input : InputMeta) (createdAt : Timestamp) :
    Definitions V S T × Outcome (ResourceObject V S T) :=
  let plan : Except ResourceError (ResourceObject V S T) := do
    refuseBuiltin r input.name
    get r d input.name
  match plan with
  | .error e => (d, .error e)
  | .ok current =>
    let merge := current.metadata.merge.getD emptyMerge
    thenGet r input.name (writeLocal r d createdAt input.name input current.spec merge)

end Flotilla.Definition
