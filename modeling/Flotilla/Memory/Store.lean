import Flotilla.Resource
import Flotilla.Digest
import Flotilla.Query.Index
import Flotilla.Lib.Loop

/-!
# The in-memory resource stream

One resource stream of the in-memory store: the objects by name with their query
index and their key and version index, the trimmed event log with its compaction
floor, the broadcast ring of the live watchers and the version counter.
`createTypedWithMerge`, `updateTypedWithMerge`, `updateStatus`, `delete` and
`tombstone` are the writes that run under the store's lock.

Every write but the tombstone has the same shape: checks that may refuse or find
nothing to do, then one version taken, then encoding that may still fail with
the version already taken, then one change with its event.  `Plan` is that shape
and `runPlan` carries it out, so what a write can do to the stream is said once,
in `runPlan_cases`.

The version counter is a `u64` and its increment is unchecked: past `u64Max` it
panics in a build with overflow checks, which leaves the stream as it was, and
wraps to zero in a build without them.
-/

namespace Flotilla.Memory

open Lib
open Query (QueryIndex)

variable {V S T : Type}

/-! ### The stream -/

inductive StoredEventKind where
  | added
  | modified
  | deleted
  deriving DecidableEq, Repr

-- The encoded tree of an event: an object, or a name-only tombstone without a spec.
inductive StoredBody (V S T : Type) where
  | object (o : ResourceObject V S T)
  | tombstone (t : ResourceTombstone)
  deriving DecidableEq

def StoredBody.name : StoredBody V S T → String
  | .object o => o.metadata.name
  | .tombstone t => t.name

def StoredBody.toObject : StoredBody V S T → Option (ResourceObject V S T)
  | .object o => some o
  | .tombstone _ => none

structure StoredEvent (V S T : Type) where
  version : Nat
  kind : StoredEventKind
  object : StoredBody V S T
  deriving DecidableEq

/-- What an event leaves under its name; only a deletion has a tombstone for a body. -/
def StoredEvent.stored (e : StoredEvent V S T) : Option (ResourceObject V S T) :=
  match e.kind with
  | .deleted => none
  | .added | .modified => e.object.toObject

/-- At least one event is kept per resource stream. -/
structure EventRetention where
  maxEventsPerResourceStream : Nat
  pos : 0 < maxEventsPerResourceStream

inductive EventHistory where
  | configured
  | latestOnly
  deriving DecidableEq, Repr

def EventHistory.retainedEvents (h : EventHistory) (configured : Nat) : Nat :=
  match h with
  | .configured => configured
  | .latestOnly => 1

def watchRingCapacity : Nat := 256

/-- The broadcast ring: how many events were ever sent, and the last ones of them. -/
structure WatchChannel (E : Type) where
  sent : Nat := 0
  ring : List E := []
  deriving DecidableEq

def WatchChannel.send {E : Type} (c : WatchChannel E) (event : E) : WatchChannel E where
  sent := c.sent + 1
  ring := (c.ring ++ [event]).drop (c.ring.length + 1 - watchRingCapacity)

/-- A kind's hooks, as the store calls them on decoded trees. -/
structure ResourceKind (V S T : Type) where
  kind : String
  replication : ReplicationClass
  eventHistory : EventHistory
  validateNamespace : Bool
  validateStored : ResourceObject V S T → Except ResourceError Unit
  initialStatus : InputMeta → Except ResourceError (Option T)
  validateSpec : InputMeta → S → Except ResourceError Unit
  validateSpecUpdate : S → S → Except ResourceError Unit
  validateStatusUpdate : Option T → T → Except ResourceError Unit
  validateSpecWithNamedSiblings :
    InputMeta → S → List (ResourceObject V S T) → Except ResourceError Unit
  cloneSpec : S → Except ResourceError S
  cloneStatus : T → Except ResourceError T
  -- Equality of the canonical serialisations under either side's labels.
  specMatches :
    BTreeMap String String → S → BTreeMap String String → S → Except ResourceError Bool
  statusMatches : T → T → Except ResourceError Bool
  -- Serialisation of a whole object, and the tree that is stored.
  serializes : ResourceObject V S T → Except ResourceError Unit
  tree : ResourceObject V S T → Json
  -- The registry of kinds and the hash function, which all kinds share.
  schema : Query.Schema
  sha256 : Sha256

/-- One stream.  The index for message queries is left out: it files the `Message` objects by
receiver, reply, batch, phase and time, and would need the encoding of those fields in `tree` and
one more update where `queries` has one. -/
structure ResourceStore (V S T : Type) where
  queries : QueryIndex := {}
  objects : BTreeMap String (ResourceObject V S T) := ∅
  digest : DigestIndex := {}
  tombstones : BTreeMap String ResourceTombstone := ∅
  nextVersion : Nat := 1
  watchers : WatchChannel (StoredEvent V S T) := {}
  eventLog : List (StoredEvent V S T) := []
  compactedThrough : Nat := 0

/-- `+= 1` on a `u64`; `none` is the panic of a build with overflow checks. -/
def increment (overflowChecks : Bool) (n : Nat) : Option Nat :=
  if n < u64Max then some (n + 1)
  else if overflowChecks then none
  else some 0

/-- An increment that does not wrap is a successor. -/
theorem increment_eq_some {overflowChecks : Bool} {n next : Nat} (hn : n ≤ u64Max)
    (h : increment overflowChecks n = some next) (hwraps : overflowChecks = true ∨ n ≠ u64Max) :
    n < u64Max ∧ next = n + 1 := by
  unfold increment at h
  by_cases hmax : n < u64Max
  · rw [if_pos hmax] at h
    exact ⟨hmax, (Option.some.inj h).symm⟩
  · rw [if_neg hmax] at h
    rcases hwraps with hchecks | hne
    · rw [if_pos hchecks] at h
      cases h
    · omega

namespace ResourceStore

def currentVersion (s : ResourceStore V S T) : Nat := s.nextVersion - 1

def allocateVersion (overflowChecks : Bool) (s : ResourceStore V S T) :
    Option (Nat × ResourceStore V S T) :=
  (increment overflowChecks s.nextVersion).map fun next =>
    (s.nextVersion, { s with nextVersion := next })

def pushEvent (k : ResourceKind V S T) (s : ResourceStore V S T) (event : StoredEvent V S T)
    (maxEvents : Nat) : ResourceStore V S T :=
  let name := event.object.name
  let queries := QueryIndex.update k.schema s.queries name (event.stored.map k.tree)
  let digest := s.digest.set k.sha256 name (event.stored.map fun _ => toString event.version)
  let excess := s.eventLog.length + 1 - maxEvents
  let compactedThrough :=
    if 0 < excess then
      match s.eventLog[excess - 1]? with
      | some lastRemoved => lastRemoved.version
      | none => s.compactedThrough
    else s.compactedThrough
  { s with
    queries
    digest
    compactedThrough
    eventLog := s.eventLog.drop excess ++ [event]
    watchers := s.watchers.send event }

end ResourceStore

/-! ### The indexes of the objects -/

/-- An invariant of the two indexes of some bodies, kept when a body is put in or a name
taken out. -/
structure Tracks (k : ResourceKind V S T)
    (I : DigestIndex → QueryIndex → BTreeMap String (ResourceObject V S T) → Prop) : Prop where
  put : ∀ {digest queries bodies}, I digest queries bodies → ∀ o : ResourceObject V S T,
    I (digest.set k.sha256 o.metadata.name (some o.metadata.resourceVersion))
      (QueryIndex.update k.schema queries o.metadata.name (some (k.tree o)))
      (bodies.insert o.metadata.name o)
  remove : ∀ {digest queries bodies}, I digest queries bodies → ∀ name : String,
    I (digest.set k.sha256 name none) (QueryIndex.update k.schema queries name none)
      (bodies.erase name)

/-- The key and version index lists exactly these bodies. -/
def Digests (k : ResourceKind V S T) (digest : DigestIndex)
    (bodies : BTreeMap String (ResourceObject V S T)) : Prop :=
  digest.Holds k.sha256 (bodies.map fun _ o => o.metadata.resourceVersion)

/-- The query index is the one of these bodies' trees. -/
def Queries (k : ResourceKind V S T) (queries : QueryIndex)
    (bodies : BTreeMap String (ResourceObject V S T)) : Prop :=
  Query.Reflects k.schema (bodies.map fun _ o => k.tree o) queries

variable (k : ResourceKind V S T)

theorem digests_empty : Digests k {} ∅ := by
  exact DigestIndex.holds_empty k.sha256

theorem queries_empty : Queries k {} ∅ := by
  exact Query.reflects_empty k.schema

theorem Digests.put {k : ResourceKind V S T} {digest : DigestIndex}
    {bodies : BTreeMap String (ResourceObject V S T)} (h : Digests k digest bodies)
    (o : ResourceObject V S T) :
    Digests k (digest.set k.sha256 o.metadata.name (some o.metadata.resourceVersion))
      (bodies.insert o.metadata.name o) := by
  unfold Digests
  rw [BTreeMap.map_insert]
  exact DigestIndex.Holds.set h o.metadata.name (some o.metadata.resourceVersion)

theorem tracks_digests : Tracks k fun digest _ bodies => Digests k digest bodies where
  put h o := Digests.put h o
  remove h name := by
    unfold Digests
    rw [BTreeMap.map_erase]
    exact DigestIndex.Holds.set h name none

theorem tracks_queries : Tracks k fun _ queries bodies => Queries k queries bodies where
  put h o := by
    unfold Queries
    rw [BTreeMap.map_insert]
    exact Query.Reflects.update h o.metadata.name (some (k.tree o))
  remove h name := by
    unfold Queries
    rw [BTreeMap.map_erase]
    exact Query.Reflects.update h name none

/-! ### Streams -/

/-- One stream of a backend: a kind in a namespace, with the backend's retention
and store generation, and whether the build checks its arithmetic. -/
structure Stream (V S T : Type) where
  kind : ResourceKind V S T
  ns : String
  eventRetention : EventRetention
  generation : Option String
  overflowChecks : Bool

def Stream.retainedEvents (c : Stream V S T) : Nat :=
  c.kind.eventHistory.retainedEvents c.eventRetention.maxEventsPerResourceStream

def decodeObject (k : ResourceKind V S T) (o : ResourceObject V S T) :
    Except ResourceError (ResourceObject V S T) := do
  k.validateStored o.stripped
  return o.stripped

def encodeObject (k : ResourceKind V S T) (o : ResourceObject V S T) :
    Except ResourceError (ResourceObject V S T) := do
  k.serializes o
  return o.stripped

theorem encodeObject_eq_ok {k : ResourceKind V S T} {o encoded : ResourceObject V S T}
    (h : encodeObject k o = .ok encoded) : encoded = o.stripped := by
  obtain ⟨_, -, h⟩ := bind_eq_ok h
  cases h
  rfl

/-! ### The shape of a write -/

inductive Outcome (α : Type) where
  | ok (a : α)
  | error (e : ResourceError)
  | panic
  deriving DecidableEq

def Outcome.map {α β : Type} (f : α → β) : Outcome α → Outcome β
  | .ok a => .ok (f a)
  | .error e => .error e
  | .panic => .panic

def Outcome.toOption {α : Type} : Outcome α → Option α
  | .ok a => some a
  | _ => none

theorem Outcome.exists_ok {D α β : Type} {x : D × Outcome α} {f : α → β} {b : β}
    (h : x.2.toOption.map f = some b) : ∃ d a, x = (d, .ok a) ∧ f a = b := by
  obtain ⟨d, out⟩ := x
  cases out with
  | ok a => exact ⟨d, a, rfl, Option.some.inj h⟩
  | error e => cases h
  | panic => cases h

/-- What a committed write does to the object map, with the event it logs. -/
inductive Change (V S T : Type) where
  | added (name : String) (o : ResourceObject V S T)
  | modified (name : String) (o : ResourceObject V S T)
  | deleted (name : String) (o : ResourceObject V S T)
  | tombstone (t : ResourceTombstone)

inductive Plan (V S T α : Type) where
  | done (a : α)
  | write (prepare : Nat → Except ResourceError (Change V S T × α))

/-- Apply a change and push its event. -/
def ResourceStore.commit (c : Stream V S T) (s : ResourceStore V S T) (version : Nat) :
    Change V S T → ResourceStore V S T
  | .added name o =>
    { s with tombstones := s.tombstones.erase name, objects := s.objects.insert name o }.pushEvent
      c.kind ⟨version, .added, .object o⟩ c.retainedEvents
  | .modified name o =>
    { s with objects := s.objects.insert name o }.pushEvent
      c.kind ⟨version, .modified, .object o⟩ c.retainedEvents
  | .deleted name o =>
    { s with objects := s.objects.erase name }.pushEvent
      c.kind ⟨version, .deleted, .object o⟩ c.retainedEvents
  | .tombstone t =>
    let s := s.pushEvent c.kind ⟨version, .deleted, .tombstone t⟩ c.retainedEvents
    { s with tombstones := s.tombstones.insert t.name t }

def runPlan {α : Type} (c : Stream V S T) (s : ResourceStore V S T)
    (plan : Except ResourceError (Plan V S T α)) : ResourceStore V S T × Outcome α :=
  match plan with
  | .error e => (s, .error e)
  | .ok (.done a) => (s, .ok a)
  | .ok (.write prepare) =>
    match s.allocateVersion c.overflowChecks with
    | none => (s, .panic)
    | some (version, s) =>
      match prepare version with
      | .error e => (s, .error e)
      | .ok (change, a) => (s.commit c version change, .ok a)

/-- **What a write can do to the stream**: nothing, take a version and fail, or
commit one change under the version it took. -/
theorem runPlan_cases {α : Type} {c : Stream V S T} {s s' : ResourceStore V S T}
    {plan : Except ResourceError (Plan V S T α)} {out : Outcome α}
    (h : runPlan c s plan = (s', out)) :
    (s' = s ∧ ∀ a, out = .ok a → plan = .ok (.done a)) ∨
    (∃ next, increment c.overflowChecks s.nextVersion = some next ∧
      (∃ prepare e, plan = .ok (.write prepare) ∧ prepare s.nextVersion = .error e) ∧
      s' = { s with nextVersion := next } ∧ ∀ a, out ≠ .ok a) ∨
    (∃ next, increment c.overflowChecks s.nextVersion = some next ∧
      ∃ prepare change a, plan = .ok (.write prepare) ∧
        prepare s.nextVersion = .ok (change, a) ∧ out = .ok a ∧
        s' = { s with nextVersion := next }.commit c s.nextVersion change) := by
  cases plan with
  | error e =>
    obtain ⟨rfl, rfl⟩ := Prod.mk.inj h
    exact .inl ⟨rfl, fun a ha => by cases ha⟩
  | ok plan =>
    cases plan with
    | done a =>
      obtain ⟨rfl, rfl⟩ := Prod.mk.inj h
      exact .inl ⟨rfl, fun b hb => by cases hb; rfl⟩
    | write prepare =>
      cases hnext : increment c.overflowChecks s.nextVersion with
      | none =>
        simp only [runPlan, ResourceStore.allocateVersion, hnext, Option.map_none] at h
        obtain ⟨rfl, rfl⟩ := Prod.mk.inj h
        exact .inl ⟨rfl, fun a ha => by cases ha⟩
      | some next =>
        simp only [runPlan, ResourceStore.allocateVersion, hnext, Option.map_some] at h
        cases hprepare : prepare s.nextVersion with
        | error e =>
          rw [hprepare] at h
          obtain ⟨rfl, rfl⟩ := Prod.mk.inj h
          exact .inr (Or.inl
            ⟨next, rfl, ⟨prepare, e, rfl, hprepare⟩, rfl, fun a ha => by cases ha⟩)
        | ok result =>
          obtain ⟨change, a⟩ := result
          rw [hprepare] at h
          obtain ⟨rfl, rfl⟩ := Prod.mk.inj h
          exact .inr (Or.inr ⟨next, rfl, prepare, change, a, rfl, hprepare, rfl, rfl⟩)

/-! ### The writes -/

section Create

variable (c : Stream V S T) (now : Timestamp) (s : ResourceStore V S T)

def validateNamespaceSpec (input : InputMeta) (spec : S) : Except ResourceError Unit := do
  if c.kind.validateNamespace then
    let objects ← (s.objects.toList.map Prod.snd).mapM (decodeObject c.kind)
    let siblings := objects.filter fun o =>
      o.metadata.name ≠ input.name ∧ o.metadata.deletionTimestamp = none
    c.kind.validateSpecWithNamedSiblings input spec siblings

/-- The checks of a create, and the status the kind derives for it. -/
def admitCreate (input : InputMeta) (spec : S) : Except ResourceError (Option T) := do
  c.kind.validateSpec input spec
  let initialStatus ← c.kind.initialStatus input
  if s.objects.contains input.name then
    throw (.conflict input.name "resource already exists")
  validateNamespaceSpec c s input spec
  return initialStatus

def createdObject (ns : String) (now : Timestamp) (input : InputMeta) (spec : S)
    (merge : Option (MergeMetadata V)) (status : Option T) (version : Nat) :
    ResourceObject V S T where
  metadata := {
    name := input.name
    ns
    resourceVersion := toString version
    labels := input.labels
    annotations := input.annotations
    ownerReferences := input.ownerReferences
    finalizers := input.finalizers
    deletionTimestamp := input.deletionTimestamp
    creationTimestamp := now
    merge }
  spec
  status

def createPlan (input : InputMeta) (spec : S) (merge : Option (MergeMetadata V)) :
    Except ResourceError (Plan V S T (ResourceObject V S T)) := do
  let initialStatus ← admitCreate c s input spec
  return .write fun version => do
    let spec ← c.kind.cloneSpec spec
    let object := createdObject c.ns now input spec merge initialStatus version
    let encoded ← encodeObject c.kind object
    return (.added input.name encoded, object)

def createTypedWithMerge (input : InputMeta) (spec : S) (merge : Option (MergeMetadata V)) :
    ResourceStore V S T × Outcome (ResourceObject V S T) :=
  runPlan c s (createPlan c now s input spec merge)

end Create

section Update

variable [DecidableEq V] (c : Stream V S T) (s : ResourceStore V S T)

-- The stored object, decoded, if it is still at the version the caller read.
def readAtVersion (name resourceVersion : String) (stale : String → ResourceError) :
    Except ResourceError (ResourceObject V S T) := do
  let some existing := s.objects[name]? | throw (.notFound name)
  let object ← decodeObject c.kind existing
  if object.metadata.resourceVersion ≠ resourceVersion then
    throw (stale object.metadata.resourceVersion)
  return object

omit [DecidableEq V] in
theorem readAtVersion_ok {c : Stream V S T} {s : ResourceStore V S T} {name version : String}
    {stale : String → ResourceError} {object : ResourceObject V S T}
    (h : readAtVersion c s name version stale = .ok object) :
    ∃ row, s.objects[name]? = some row ∧ object = row.stripped ∧
      row.metadata.resourceVersion = version := by
  unfold readAtVersion at h
  cases hrow : s.objects[name]? with
  | none => rw [hrow] at h; cases h
  | some row =>
    rw [hrow] at h
    obtain ⟨decoded, hdecoded, h⟩ := bind_eq_ok h
    obtain ⟨-, -, hdecoded⟩ := bind_eq_ok hdecoded
    cases hdecoded
    obtain ⟨hstale, h⟩ := of_ite_else h (by rintro ⟨⟩)
    cases h
    exact ⟨row, rfl, rfl, not_not.mp hstale⟩

def matchesUpdate (k : ResourceKind V S T) (o : ResourceObject V S T) (input : InputMeta)
    (spec : S) : Except ResourceError Bool := do
  let sameSpec ← k.specMatches o.metadata.labels o.spec input.labels spec
  return o.metadata.toInputMeta = input ∧ sameSpec

/-- The checks of an update: the object read, and whether there is nothing to write. -/
def admitUpdate (input : InputMeta) (resourceVersion : String) (spec : S)
    (admittedMerge : Option (MergeMetadata V)) :
    Except ResourceError (ResourceObject V S T × Bool) := do
  let object ← readAtVersion c s input.name resourceVersion
    fun _ => .conflict input.name "stale resourceVersion"
  c.kind.validateSpecUpdate object.spec spec
  c.kind.validateSpec input spec
  validateNamespaceSpec c s input spec
  let sameInput ← matchesUpdate c.kind object input spec
  return (object, sameInput ∧ (admittedMerge = none ∨ admittedMerge = object.metadata.merge))

def updatedObject (object : ResourceObject V S T) (input : InputMeta) (spec : S)
    (admittedMerge : Option (MergeMetadata V)) (version : Nat) : ResourceObject V S T where
  metadata := {
    object.metadata with
    resourceVersion := toString version
    labels := input.labels
    annotations := input.annotations
    ownerReferences := input.ownerReferences
    finalizers := input.finalizers
    deletionTimestamp := input.deletionTimestamp
    merge := admittedMerge.or object.metadata.merge }
  spec
  status := object.status

/-- A finished deletion removes the object, except for definitions, which keep a tombstone row. -/
def updateChange (k : ResourceKind V S T) (name : String) (object encoded : ResourceObject V S T) :
    Change V S T :=
  if k.replication ≠ .definitions ∧ object.metadata.deletionTimestamp.isSome
      ∧ object.metadata.finalizers.isEmpty then
    .deleted name encoded
  else
    .modified name encoded

def updatePlan (input : InputMeta) (resourceVersion : String) (spec : S)
    (admittedMerge : Option (MergeMetadata V)) :
    Except ResourceError (Plan V S T (ResourceObject V S T)) := do
  let (object, unchanged) ← admitUpdate c s input resourceVersion spec admittedMerge
  if unchanged then
    return .done object
  return .write fun version => do
    let spec ← c.kind.cloneSpec spec
    let object := updatedObject object input spec admittedMerge version
    let encoded ← encodeObject c.kind object
    return (updateChange c.kind input.name object encoded, object)

def updateTypedWithMerge (input : InputMeta) (resourceVersion : String) (spec : S)
    (admittedMerge : Option (MergeMetadata V)) :
    ResourceStore V S T × Outcome (ResourceObject V S T) :=
  runPlan c s (updatePlan c s input resourceVersion spec admittedMerge)

-- A convoy's stale status write reports both versions.
def staleStatus (k : ResourceKind V S T) (name expected current : String) : ResourceError :=
  if k.kind = "Convoy" then
    .conflict name ("stale resourceVersion: expected=" ++ expected ++ ", current=" ++ current
      ++ ", intervening_writer=unavailable (not recorded)")
  else
    .conflict name "stale resourceVersion"

def statusUnchanged (k : ResourceKind V S T) (object : ResourceObject V S T) (status : T) :
    Except ResourceError Bool :=
  match object.status with
  | some current => k.statusMatches current status
  | none => .ok false

def statusPlan (name resourceVersion : String) (status : T) :
    Except ResourceError (Plan V S T (ResourceObject V S T)) := do
  let object ← readAtVersion c s name resourceVersion (staleStatus c.kind name resourceVersion)
  c.kind.validateStatusUpdate object.status status
  let unchanged ← statusUnchanged c.kind object status
  if unchanged then
    return .done object
  return .write fun version => do
    let object : ResourceObject V S T := {
      object with
      metadata := { object.metadata with resourceVersion := toString version }
      status := some (← c.kind.cloneStatus status) }
    let encoded ← encodeObject c.kind object
    return (.modified name encoded, object)

def updateStatus (name resourceVersion : String) (status : T) :
    ResourceStore V S T × Outcome (ResourceObject V S T) :=
  runPlan c s (statusPlan c s name resourceVersion status)

end Update

variable (c : Stream V S T) (now : Timestamp) (s : ResourceStore V S T)

def deletePlan (name : String) : Except ResourceError (Plan V S T Unit) := do
  let some existing := s.objects[name]? | throw (.notFound name)
  let object ← decodeObject c.kind existing
  if object.metadata.isPendingFinalization then
    return .done ()
  return .write fun version => do
    let metadata := { object.metadata with resourceVersion := toString version }
    if ¬ metadata.finalizers.isEmpty ∧ metadata.deletionTimestamp = none then
      let encoded ← encodeObject c.kind
        { object with metadata := { metadata with deletionTimestamp := some now } }
      return (.modified name encoded, ())
    let encoded ← encodeObject c.kind { object with metadata }
    return (.deleted name encoded, ())

def delete (name : String) : ResourceStore V S T × Outcome Unit :=
  runPlan c s (deletePlan c now s name)

structure TombstoneWrite where
  tombstone : ResourceTombstone
  created : Bool
  deriving DecidableEq

-- The floor is raised before the version is taken, so both survive a panic of the increment.
def raiseFloor (s : ResourceStore V S T) (minimum : Option Nat) : ResourceStore V S T :=
  match minimum with
  | some minimum => { s with nextVersion := max s.nextVersion (saturatingAdd minimum 1) }
  | none => s

def parseMinimum : Option String → Except ResourceError (Option Nat)
  | none => .ok none
  | some version =>
    match parseU64 version with
    | some minimum => .ok (some minimum)
    | none => .error (.invalid
        ("invalid replica cursor resourceVersion '" ++ version ++ "' while tombstoning: "
          ++ parseU64Error version))

def tombstonePlan (name : String) : Plan V S T TombstoneWrite :=
  .write fun version =>
    let tombstone : ResourceTombstone := { name, ns := c.ns, resourceVersion := toString version }
    .ok (.tombstone tombstone, ⟨tombstone, true⟩)

def tombstone (name : String) (minimumResourceVersion : Option String) :
    ResourceStore V S T × Outcome TombstoneWrite :=
  match parseMinimum minimumResourceVersion with
  | .error e => (s, .error e)
  | .ok minimum =>
    if s.objects.contains name then
      (s, .error (.conflict name "cannot tombstone an existing resource by name"))
    else
      match s.tombstones[name]? with
      | some tombstone => (s, .ok ⟨tombstone, false⟩)
      | none => runPlan c (raiseFloor s minimum) (.ok (tombstonePlan c name))

/-! ### A kind for the fixed inputs

`Event`, without hooks of its own.  Its stored tree is cut down to two fields,
of which an older writer may have left out the reason.  Hashing is by length.
-/

structure EventTree where
  reason : Option String
  message : String
  deriving DecidableEq, Repr

def eventKind : ResourceKind Unit EventTree Unit where
  kind := "Event"
  replication := .homeBoundRuntime
  eventHistory := .configured
  validateNamespace := false
  validateStored o :=
    if o.spec.reason.isSome then .ok () else .error (.decode "missing field \x60reason\x60")
  initialStatus _ := .ok none
  validateSpec _ _ := .ok ()
  validateSpecUpdate _ _ := .ok ()
  validateStatusUpdate _ _ := .ok ()
  validateSpecWithNamedSiblings _ _ _ := .ok ()
  cloneSpec := .ok
  cloneStatus := .ok
  specMatches _ spec _ spec' := .ok (spec = spec')
  statusMatches _ _ := .ok true
  serializes _ := .ok ()
  tree o := .object [("kind", .string "Event"),
    ("metadata", .object [("name", .string o.metadata.name)]),
    ("spec", .object [("message", .string o.spec.message)])]
  schema := {
    kinds := [⟨"Event", ["metadata.name"], .homeBoundRuntime⟩]
    decoders := ⟨fun _ => none, fun _ => none, fun _ => none⟩
    distinct := by decide }
  sha256 bytes := Vector.replicate 32 (UInt8.ofNat bytes.length)

end Flotilla.Memory
