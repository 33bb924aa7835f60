import Flotilla.Memory.Store
import Flotilla.Lib.Loop

/-!
# A replica partition

What a root holds of one origin's stream: the bodies by name with their query
index and their key and version index, the sync time of every name it ever saw,
the quarantined records and the cursor of the origin's log.  `applyReplica`,
`applyReplicaTombstone` and `replaceReplicas` change the bodies;
`invalidateCursor`, `advanceCursor` and the digest confirmation move the cursor.
The message index is left out.
-/

namespace Flotilla.Replica

open Lib
open Memory
open Query (QueryIndex)

variable {V S T : Type}

/-! ### Events and cursors -/

structure ReplicaCursor where
  resourceVersion : String
  generation : Option String
  deriving DecidableEq

inductive StoredReplicaEventKind where
  | added
  | modified
  | deleted
  deriving DecidableEq, Repr

structure StoredReplicaEvent (V S T : Type) where
  originRoot : NodeId
  syncedAt : Timestamp
  kind : StoredReplicaEventKind
  object : StoredBody V S T

inductive WatchEvent (V S T : Type) where
  | added (object : ResourceObject V S T)
  | modified (object : ResourceObject V S T)
  | deleted (object : ResourceObject V S T)
  | deletedByName (tombstone : ResourceTombstone)

namespace WatchEvent

def name : WatchEvent V S T → String
  | .added o | .modified o | .deleted o => o.metadata.name
  | .deletedByName t => t.name

def resourceVersion : WatchEvent V S T → String
  | .added o | .modified o | .deleted o => o.metadata.resourceVersion
  | .deletedByName t => t.resourceVersion

def version (e : WatchEvent V S T) : Option Nat := parseU64 e.resourceVersion

/-- The body of an added or modified event. -/
def upserted : WatchEvent V S T → Option (ResourceObject V S T)
  | .added o | .modified o => some o
  | .deleted _ | .deletedByName _ => none

end WatchEvent

/-! ### The partition -/

/-- What replication needs of a kind: its checks, and the printed body that
breaks ties of sync time. -/
structure ReplicaKind (V S T : Type) where
  kind : ResourceKind V S T
  text : ResourceObject V S T → String

def ReplicaKind.bucketOf (k : ReplicaKind V S T) (name : String) : Fin 256 :=
  digestBucket k.kind.sha256 name

/-- `validate_stored_object` on an encoded body. -/
def ReplicaKind.valid (k : ReplicaKind V S T) (encoded : ResourceObject V S T) : Bool :=
  (k.kind.validateStored encoded).isOk

structure Quarantine (V S T : Type) where
  body : ResourceObject V S T
  error : String
  quarantinedAt : Timestamp

/-- One origin's objects of a kind; the index for message queries is left out as in
`ResourceStore`. -/
structure ReplicaPartition (V S T : Type) where
  queries : QueryIndex := {}
  objects : BTreeMap String (ResourceObject V S T) := ∅
  digest : DigestIndex := {}
  -- Kept for deleted names, against older relayed writes.
  syncedAtByName : BTreeMap String Timestamp := ∅
  cursor : Option ReplicaCursor := none
  quarantines : BTreeMap String (Quarantine V S T) := ∅
  notified : List (StoredReplicaEvent V S T) := []

/-- The writer's guard: kinds outside the overlay have no replicas. -/
def ensureReplicationEnabled (k : ReplicaKind V S T) : Except ResourceError Unit :=
  if k.kind.replication ≠ .none then .ok ()
  else .error (.invalid (k.kind.kind ++ " is not enabled for overlay replication"))

def replicaVersion (body : ResourceObject V S T) : Option Nat :=
  parseU64 body.metadata.resourceVersion

/-- Bodies without a numeric version fall back to sync-time ordering. -/
def replicaVersionIsNewer : Option Nat → Option Nat → Bool
  | some held, some arriving => arriving < held
  | _, _ => false

def replicaBodyIsNewer (held arriving : ResourceObject V S T) : Bool :=
  replicaVersionIsNewer (replicaVersion held) (replicaVersion arriving)

namespace ReplicaPartition

variable (k : ReplicaKind V S T) (p : ReplicaPartition V S T)

def heldIsNewer (name : String) (arriving : Option Nat) : Bool :=
  p.objects[name]?.any fun held => replicaVersionIsNewer (replicaVersion held) arriving

/-- An added or modified body that comes no later than what is there. -/
def staleUpsert (encoded : ResourceObject V S T) (syncedAt : Timestamp) : Bool :=
  match p.syncedAtByName[encoded.metadata.name]? with
  | none => false
  | some existingSyncedAt =>
    if syncedAt < existingSyncedAt then true
    else if existingSyncedAt = syncedAt then
      match p.objects[encoded.metadata.name]? with
      | some existing => k.text encoded ≤ k.text existing
      | none => true
    else false

/-- A deletion that comes no later than what is there. -/
def staleDelete (name : String) (syncedAt : Timestamp) : Bool :=
  match p.syncedAtByName[name]? with
  | none => false
  | some existingSyncedAt =>
    if syncedAt < existingSyncedAt then true
    else if existingSyncedAt = syncedAt then !p.objects.contains name
    else false

def put (originRoot : NodeId) (kind : StoredReplicaEventKind) (encoded : ResourceObject V S T)
    (syncedAt : Timestamp) : ReplicaPartition V S T :=
  { p with
    queries := QueryIndex.update k.kind.schema p.queries encoded.metadata.name
      (some (k.kind.tree encoded))
    objects := p.objects.insert encoded.metadata.name encoded
    digest := p.digest.set k.kind.sha256 encoded.metadata.name
      (some encoded.metadata.resourceVersion)
    syncedAtByName := p.syncedAtByName.insert encoded.metadata.name syncedAt
    quarantines := p.quarantines.erase encoded.metadata.name
    notified := p.notified ++ [⟨originRoot, syncedAt, kind, .object encoded⟩] }

def remove (originRoot : NodeId) (body : StoredBody V S T) (syncedAt : Timestamp) :
    ReplicaPartition V S T :=
  { p with
    queries := QueryIndex.update k.kind.schema p.queries body.name none
    objects := p.objects.erase body.name
    digest := p.digest.set k.kind.sha256 body.name none
    syncedAtByName := p.syncedAtByName.insert body.name syncedAt
    quarantines := p.quarantines.erase body.name
    notified := p.notified ++ [⟨originRoot, syncedAt, .deleted, body⟩] }

def invalidateCursor : ReplicaPartition V S T :=
  { p with cursor := none }

def advanceCursor (previous : ReplicaCursor) (next : String) :
    Except ResourceError (ReplicaPartition V S T) :=
  if p.cursor ≠ some previous then .error (.invalid "replica prefix changed concurrently")
  else .ok { p with cursor := some ⟨next, previous.generation⟩ }

end ReplicaPartition

section Decidable

variable [DecidableEq V] [DecidableEq S] [DecidableEq T] (k : ReplicaKind V S T)
  (originRoot : NodeId) (p : ReplicaPartition V S T)

/-- `validate_replica_record`: the quarantine keeps the first time a rejected
body was seen. -/
def validateReplicaRecord (now : Timestamp) (quarantines : BTreeMap String (Quarantine V S T))
    (encoded : ResourceObject V S T) : BTreeMap String (Quarantine V S T) × Bool :=
  match k.kind.validateStored encoded with
  | .ok _ => (quarantines, true)
  | .error e =>
    let previous := quarantines[encoded.metadata.name]?.filter (·.body = encoded)
    if previous.any (·.error = e.render) then (quarantines, false)
    else
      let quarantinedAt := (previous.map (·.quarantinedAt)).getD now
      (quarantines.insert encoded.metadata.name ⟨encoded, e.render, quarantinedAt⟩, false)

/-! ### Applying one event -/

def upsertReplica (kind : StoredReplicaEventKind) (encoded : ResourceObject V S T)
    (syncedAt now : Timestamp) : ReplicaPartition V S T :=
  let checked := validateReplicaRecord k now p.quarantines encoded
  if checked.2 then
    if p.heldIsNewer encoded.metadata.name (replicaVersion encoded)
        || p.staleUpsert k encoded syncedAt then p
    else p.put k originRoot kind encoded syncedAt
  else { p with quarantines := checked.1 }

def removeReplica (body : StoredBody V S T) (version : Option Nat) (syncedAt : Timestamp) :
    ReplicaPartition V S T :=
  if p.heldIsNewer body.name version || p.staleDelete body.name syncedAt then p
  else p.remove k originRoot body syncedAt

def applyReplica (kind : StoredReplicaEventKind) (object : ResourceObject V S T)
    (syncedAt now : Timestamp) : ReplicaPartition V S T × Except ResourceError Unit :=
  match encodeObject k.kind object with
  | .error e => (p, .error e)
  | .ok encoded =>
    match kind with
    | .deleted =>
      (removeReplica k originRoot p (.object encoded) (replicaVersion encoded) syncedAt, .ok ())
    | _ => (upsertReplica k originRoot p kind encoded syncedAt now, .ok ())

def applyReplicaTombstone (tombstone : ResourceTombstone) (syncedAt : Timestamp) :
    ReplicaPartition V S T :=
  removeReplica k originRoot p (.tombstone tombstone) (parseU64 tombstone.resourceVersion) syncedAt

/-- One event of `apply_replica_batch_raw`. -/
def applyEvent (event : WatchEvent V S T) (syncedAt now : Timestamp) :
    ReplicaPartition V S T × Except ResourceError Unit :=
  match event with
  | .added object => applyReplica k originRoot p .added object syncedAt now
  | .modified object => applyReplica k originRoot p .modified object syncedAt now
  | .deleted object => applyReplica k originRoot p .deleted object syncedAt now
  | .deletedByName tombstone => (applyReplicaTombstone k originRoot p tombstone syncedAt, .ok ())

/-- Stops at the first event that does not encode. -/
def applyReplicaBatch (k : ReplicaKind V S T) (originRoot : NodeId) (p : ReplicaPartition V S T)
    (now : Timestamp) :
    List (WatchEvent V S T × Timestamp) → ReplicaPartition V S T × Except ResourceError Unit
  | [] => (p, .ok ())
  | (event, syncedAt) :: rest =>
    match applyEvent k originRoot p event syncedAt now with
    | (p, .ok _) => applyReplicaBatch k originRoot p now rest
    | (p, .error e) => (p, .error e)

/-! ### What an event can do

An event is put in, takes its name out, or leaves the bodies, the index, the
sync times and the cursor as they were.
-/

theorem validateReplicaRecord_snd (now : Timestamp)
    (quarantines : BTreeMap String (Quarantine V S T)) (encoded : ResourceObject V S T) :
    (validateReplicaRecord k now quarantines encoded).2 = k.valid encoded := by
  unfold validateReplicaRecord ReplicaKind.valid
  cases k.kind.validateStored encoded with
  | ok _ => rfl
  | error e =>
    simp only
    split <;> rfl

/-- Why an added or modified body is not put in. -/
def RefusesUpsert (encoded : ResourceObject V S T) (syncedAt : Timestamp) : Prop :=
  k.valid encoded = false ∨
    p.heldIsNewer encoded.metadata.name (replicaVersion encoded) = true ∨
    p.staleUpsert k encoded syncedAt = true

theorem upsertReplica_cases (kind : StoredReplicaEventKind) (encoded : ResourceObject V S T)
    (syncedAt now : Timestamp) :
    (RefusesUpsert k p encoded syncedAt ∧ ∃ quarantines,
      upsertReplica k originRoot p kind encoded syncedAt now = { p with quarantines }) ∨
    (¬ RefusesUpsert k p encoded syncedAt ∧
      upsertReplica k originRoot p kind encoded syncedAt now =
        p.put k originRoot kind encoded syncedAt) := by
  unfold upsertReplica RefusesUpsert
  simp only [validateReplicaRecord_snd]
  cases hvalid : k.valid encoded with
  | false => exact .inl ⟨.inl rfl, _, rfl⟩
  | true =>
    by_cases hstale : (p.heldIsNewer encoded.metadata.name (replicaVersion encoded)
        || p.staleUpsert k encoded syncedAt) = true
    · rw [if_pos hstale]
      exact .inl ⟨.inr (Bool.or_eq_true _ _ ▸ hstale), p.quarantines, rfl⟩
    · rw [if_neg hstale]
      rw [Bool.or_eq_true] at hstale
      exact .inr ⟨fun h => h.elim (by simp) hstale, rfl⟩

omit [DecidableEq V] [DecidableEq S] [DecidableEq T] in
theorem removeReplica_cases (body : StoredBody V S T) (version : Option Nat)
    (syncedAt : Timestamp) :
    ((p.heldIsNewer body.name version = true ∨ p.staleDelete body.name syncedAt = true) ∧
      removeReplica k originRoot p body version syncedAt = p) ∨
    (p.heldIsNewer body.name version = false ∧ p.staleDelete body.name syncedAt = false ∧
      removeReplica k originRoot p body version syncedAt =
        p.remove k originRoot body syncedAt) := by
  unfold removeReplica
  by_cases hstale : (p.heldIsNewer body.name version || p.staleDelete body.name syncedAt) = true
  · rw [if_pos hstale]
    exact .inl ⟨Bool.or_eq_true _ _ ▸ hstale, rfl⟩
  · rw [if_neg hstale]
    simp only [Bool.or_eq_true, not_or, Bool.not_eq_true] at hstale
    exact .inr ⟨hstale.1, hstale.2, rfl⟩

/-- What an event that encodes can do to a partition. -/
inductive EventEffect (k : ReplicaKind V S T) (originRoot : NodeId) (p : ReplicaPartition V S T)
    (e : WatchEvent V S T) (syncedAt : Timestamp) : ReplicaPartition V S T → Prop
  | refused {o : ResourceObject V S T} (he : e.upserted = some o)
      (h : RefusesUpsert k p o.stripped syncedAt)
      (quarantines : BTreeMap String (Quarantine V S T)) :
      EventEffect k originRoot p e syncedAt { p with quarantines }
  | put {o : ResourceObject V S T} (he : e.upserted = some o)
      (h : ¬ RefusesUpsert k p o.stripped syncedAt) (kind : StoredReplicaEventKind) :
      EventEffect k originRoot p e syncedAt (p.put k originRoot kind o.stripped syncedAt)
  | stale (he : e.upserted = none)
      (h : p.heldIsNewer e.name e.version = true ∨ p.staleDelete e.name syncedAt = true) :
      EventEffect k originRoot p e syncedAt p
  | removed (he : e.upserted = none) {body : StoredBody V S T} (hbody : body.name = e.name)
      (hnewer : p.heldIsNewer e.name e.version = false)
      (hstale : p.staleDelete e.name syncedAt = false) :
      EventEffect k originRoot p e syncedAt (p.remove k originRoot body syncedAt)

omit [DecidableEq V] [DecidableEq S] [DecidableEq T] in
theorem removeReplica_effect {e : WatchEvent V S T} (he : e.upserted = none) (syncedAt : Timestamp)
    (body : StoredBody V S T) (hbody : body.name = e.name) :
    EventEffect k originRoot p e syncedAt
      (removeReplica k originRoot p body e.version syncedAt) := by
  rcases removeReplica_cases k originRoot p body e.version syncedAt with
    ⟨hstale, hresult⟩ | ⟨hnewer, hstale, hresult⟩
  · rw [hresult]
    rw [hbody] at hstale
    exact .stale he hstale
  · rw [hresult]
    rw [hbody] at hnewer hstale
    exact .removed he hbody hnewer hstale

theorem upsertReplica_effect {e : WatchEvent V S T} {o : ResourceObject V S T}
    (he : e.upserted = some o) (kind : StoredReplicaEventKind) (syncedAt now : Timestamp) :
    EventEffect k originRoot p e syncedAt
      (upsertReplica k originRoot p kind o.stripped syncedAt now) := by
  rcases upsertReplica_cases k originRoot p kind o.stripped syncedAt now with
    ⟨hrefuses, quarantines, hresult⟩ | ⟨hrefuses, hresult⟩
  · rw [hresult]
    exact .refused he hrefuses quarantines
  · rw [hresult]
    exact .put he hrefuses kind

/-- **An event that does not encode is an error and changes nothing; every other
one has an effect of the list.** -/
theorem applyEvent_cases (e : WatchEvent V S T) (syncedAt now : Timestamp) :
    (∃ err, applyEvent k originRoot p e syncedAt now = (p, .error err)) ∨
      ∃ p', applyEvent k originRoot p e syncedAt now = (p', .ok ()) ∧
        EventEffect k originRoot p e syncedAt p' := by
  have hobject : ∀ kind o,
      (∀ encoded, encodeObject k.kind o = .ok encoded → ∃ p',
        applyReplica k originRoot p kind o syncedAt now = (p', .ok ()) ∧
          EventEffect k originRoot p e syncedAt p') →
      (∃ err, applyReplica k originRoot p kind o syncedAt now = (p, .error err)) ∨
        ∃ p', applyReplica k originRoot p kind o syncedAt now = (p', .ok ()) ∧
          EventEffect k originRoot p e syncedAt p' := by
    intro kind o h
    cases hencode : encodeObject k.kind o with
    | error err => exact .inl ⟨err, by unfold applyReplica; rw [hencode]⟩
    | ok encoded => exact .inr (h encoded hencode)
  cases e with
  | added o =>
    refine hobject .added o fun encoded hencode => ⟨_, ?_, upsertReplica_effect k originRoot p rfl
      .added syncedAt now⟩
    unfold applyReplica
    rw [hencode, encodeObject_eq_ok hencode]
  | modified o =>
    refine hobject .modified o fun encoded hencode => ⟨_, ?_, upsertReplica_effect k originRoot p
      rfl .modified syncedAt now⟩
    unfold applyReplica
    rw [hencode, encodeObject_eq_ok hencode]
  | deleted o =>
    refine hobject .deleted o fun encoded hencode => ⟨_, ?_, removeReplica_effect k originRoot p rfl
      syncedAt (.object o.stripped) rfl⟩
    unfold applyReplica
    rw [hencode, encodeObject_eq_ok hencode]
    rfl
  | deletedByName t =>
    exact .inr ⟨_, rfl, removeReplica_effect k originRoot p rfl syncedAt
      (.tombstone t) rfl⟩

end Decidable

/-- An event keeps the indexes in step with the bodies. -/
theorem EventEffect.tracks {k : ReplicaKind V S T} {originRoot : NodeId}
    {p p' : ReplicaPartition V S T} {e : WatchEvent V S T} {syncedAt : Timestamp}
    {I : DigestIndex → QueryIndex → BTreeMap String (ResourceObject V S T) → Prop}
    (hI : Tracks k.kind I) (hp : I p.digest p.queries p.objects)
    (h : EventEffect k originRoot p e syncedAt p') : I p'.digest p'.queries p'.objects := by
  cases h with
  | refused _ _ _ => exact hp
  | put _ _ _ => exact hI.put hp _
  | stale _ _ => exact hp
  | removed _ _ _ _ => exact hI.remove hp _

/-- The key and version index lists exactly the bodies held. -/
def Indexed (k : ReplicaKind V S T) (p : ReplicaPartition V S T) : Prop :=
  Digests k.kind p.digest p.objects

/-! ### A kind for the fixed inputs -/

def eventObject (name : String) (version : Nat) (message : String) :
    ResourceObject Unit EventTree Unit where
  metadata := {
    name
    ns := "flotilla"
    resourceVersion := toString version
    creationTimestamp := 0 }
  spec := { reason := some "Synced", message }
  status := none

-- The body is printed by the two parts that the fixed inputs vary.
def eventReplicas : ReplicaKind Unit EventTree Unit where
  kind := eventKind
  text o := o.metadata.resourceVersion ++ " " ++ o.spec.message

end Flotilla.Replica
