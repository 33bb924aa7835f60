import Flotilla.Replica.Partition

/-!
# Events applied again

What the writer of a replica partition does with an event it has applied before:
a stream that is read again after a crash gives such events first.

An event leaves the partition in a state that absorbs it: applied again under a sync
time that is no later it changes nothing and notifies nobody, `applyEvent_again`.  So
does a batch that ends in it.  Under a later sync time it is stored and sent again,
`event_stored_again`.  A direct batch proves its versions contiguous from the cursor
first, so an event that the cursor has passed is refused, under any sync time.
-/

namespace Flotilla.Replica

open Lib
open Memory

variable {V S T : Type}

/-- The writer of one kind, origin and namespace.  `transcode` gives the serialized form of a
typed event. -/
structure ReplicaWriter (V S T : Type) where
  kind : ReplicaKind V S T
  originRoot : NodeId
  transcode : WatchEvent V S T → Except ResourceError (WatchEvent V S T)

variable {w : ReplicaWriter V S T} {k : ReplicaKind V S T} {originRoot : NodeId}
  {p p' : ReplicaPartition V S T} {e : WatchEvent V S T} {events rest : List (WatchEvent V S T)}
  {t t' now now' : Timestamp} {pre post : List (WatchEvent V S T × Timestamp)}

/-! ### A contiguous batch -/

namespace ReplicaWriter

def parseVersion (text : String) : Except ResourceError Nat :=
  okOr (parseU64 text) (.invalid (parseU64Error text))

/-- The loop that proves a batch contiguous; the result is the last version. -/
def contiguous (version : Nat) (next : String) :
    List (WatchEvent V S T) → Except ResourceError String
  | [] => .ok next
  | event :: rest => do
    let nextVersion ← parseVersion event.resourceVersion
    -- `checked_add` has no result beyond the largest version
    refuseIf (u64Max < version + 1 ∨ version + 1 ≠ nextVersion)
      (.invalid "replica sequence gap; snapshot required")
    contiguous nextVersion event.resourceVersion rest

/-- The cursor a direct batch starts at, and the version it ends at. -/
def proveBatch (w : ReplicaWriter V S T) (p : ReplicaPartition V S T)
    (events : List (WatchEvent V S T)) : Except ResourceError (ReplicaCursor × String) := do
  ensureReplicationEnabled w.kind
  let previous ← okOr p.cursor (.invalid "replica prefix missing; snapshot required")
  let version ← parseVersion previous.resourceVersion
  let next ← contiguous version previous.resourceVersion events
  return (previous, next)

variable {n : Nat} {next last : String} {previous : ReplicaCursor}

theorem contiguous_cons (h : contiguous n next (e :: rest) = .ok last) :
    parseVersion e.resourceVersion = .ok (n + 1) ∧
      contiguous (n + 1) e.resourceVersion rest = .ok last := by
  obtain ⟨m, hm, h⟩ := bind_eq_ok h
  obtain ⟨hnext, h⟩ := of_refuseIf h
  obtain rfl := not_not.mp (not_or.mp hnext).2
  exact ⟨hm, h⟩

theorem contiguous_last (h : contiguous n next (events ++ [e]) = .ok last) :
    last = e.resourceVersion := by
  induction events generalizing n next with
  | nil =>
    cases (contiguous_cons h).2
    rfl
  | cons x events ih => exact ih (contiguous_cons h).2

/-- No batch goes on from an event with that event. -/
theorem contiguous_passed (h : contiguous n next (e :: rest) = .ok last) :
    parseVersion e.resourceVersion ≠ .ok n := by
  intro hn
  cases hn.symm.trans (contiguous_cons h).1

theorem contiguous_repeated : contiguous n next (events ++ e :: e :: rest) ≠ .ok last := by
  intro h
  induction events generalizing n next with
  | nil => exact contiguous_passed (contiguous_cons h).2 (contiguous_cons h).1
  | cons x events ih => exact ih (contiguous_cons h).2

theorem proveBatch_eq_ok (h : w.proveBatch p events = .ok (previous, last)) :
    p.cursor = some previous ∧ ∃ n, parseVersion previous.resourceVersion = .ok n ∧
      contiguous n previous.resourceVersion events = .ok last := by
  obtain ⟨⟨⟩, -, h⟩ := bind_eq_ok h
  obtain ⟨cursor, hcursor, h⟩ := bind_eq_ok h
  obtain ⟨n, hn, h⟩ := bind_eq_ok h
  obtain ⟨_, hlast, h⟩ := bind_eq_ok h
  cases h
  exact ⟨okOr_eq_ok.mp hcursor, n, hn, hlast⟩

end ReplicaWriter

/-! ### One event -/

/-- What is stale at one time is stale at every earlier one. -/
theorem stale_earlier {held : Timestamp} {tie : Bool} (hle : t' ≤ t)
    (h : (if t < held then true else if held = t then tie else false) = true) :
    (if t' < held then true else if held = t' then tie else false) = true := by
  rcases lt_or_eq_of_le hle with hlt | rfl
  · have hheld : t ≤ held := by
      by_contra hlater
      have hlt : held < t := not_le.mp hlater
      rw [if_neg (not_lt_of_gt hlt), if_neg hlt.ne] at h
      cases h
    rw [if_pos (lt_of_lt_of_le hlt hheld)]
  · exact h

theorem removeReplica_again {body : StoredBody V S T} {version : Option Nat} (hle : t' ≤ t) :
    removeReplica k originRoot (removeReplica k originRoot p body version t) body version t' =
      removeReplica k originRoot p body version t := by
  have hearlier : p.staleDelete body.name t = true → p.staleDelete body.name t' = true := by
    unfold ReplicaPartition.staleDelete
    split
    · exact id
    · exact stale_earlier hle
  unfold removeReplica
  split_ifs with hstale hstale' hstale'
  · rfl
  · rw [Bool.or_eq_true] at hstale hstale'
    exact absurd (hstale.imp_right hearlier) hstale'
  · rfl
  · -- the name was taken out under a sync time that is no earlier
    refine absurd ?_ hstale'
    rcases lt_or_eq_of_le hle with hlt | rfl <;>
      simp [ReplicaPartition.remove, ReplicaPartition.staleDelete, *]

variable [DecidableEq V] [DecidableEq S] [DecidableEq T] {kind : StoredReplicaEventKind}
  {encoded : ResourceObject V S T}

/-- A rejected body is quarantined once. -/
theorem validateReplicaRecord_again (q : BTreeMap String (Quarantine V S T)) :
    validateReplicaRecord k now' (validateReplicaRecord k now q encoded).1 encoded =
      validateReplicaRecord k now q encoded := by
  unfold validateReplicaRecord
  cases k.kind.validateStored encoded with
  | ok _ => rfl
  | error err =>
    dsimp only
    split_ifs with hheld hagain
    · rfl
    · rfl
    · refine absurd ?_ hagain
      simp

theorem upsertReplica_again (hle : t' ≤ t) :
    upsertReplica k originRoot (upsertReplica k originRoot p kind encoded t now) kind
      encoded t' now' = upsertReplica k originRoot p kind encoded t now := by
  have hearlier : p.staleUpsert k encoded t = true → p.staleUpsert k encoded t' = true := by
    unfold ReplicaPartition.staleUpsert
    split
    · exact id
    · exact stale_earlier hle
  unfold upsertReplica
  simp only [validateReplicaRecord_snd]
  split_ifs with hvalid hstale hstale' hstale'
  · rfl
  · rw [Bool.or_eq_true] at hstale hstale'
    exact absurd (hstale.imp_right hearlier) hstale'
  · rfl
  · -- the body is held under a sync time that is no earlier, and ties with itself
    refine absurd ?_ hstale'
    rcases lt_or_eq_of_le hle with hlt | rfl <;>
      simp [ReplicaPartition.put, ReplicaPartition.staleUpsert, *]
  · simp only [validateReplicaRecord_again]

theorem applyEvent_again (hle : t' ≤ t) :
    applyEvent k originRoot (applyEvent k originRoot p e t now).1 e t' now' =
      applyEvent k originRoot p e t now := by
  have hobject : ∀ kind object,
      applyReplica k originRoot (applyReplica k originRoot p kind object t now).1 kind object t'
        now' = applyReplica k originRoot p kind object t now := by
    intro kind object
    unfold applyReplica
    cases encodeObject k.kind object with
    | error err => rfl
    | ok encoded =>
      cases kind with
      | deleted => exact Prod.ext (removeReplica_again hle) rfl
      | added | modified => exact Prod.ext (upsertReplica_again hle) rfl
  cases e with
  | added object | modified object | deleted object => exact hobject _ object
  | deletedByName tombstone => exact Prod.ext (removeReplica_again hle) rfl

/-! ### Batches -/

theorem applyReplicaBatch_append (pre post : List (WatchEvent V S T × Timestamp)) :
    applyReplicaBatch k originRoot p now (pre ++ post) =
      match applyReplicaBatch k originRoot p now pre with
      | (p, .ok _) => applyReplicaBatch k originRoot p now post
      | (p, .error err) => (p, .error err) := by
  induction pre generalizing p with
  | nil => rfl
  | cons x pre ih =>
    rw [List.cons_append, applyReplicaBatch, applyReplicaBatch]
    split
    · exact ih
    · rfl

/-- After a batch that ends in an event, a batch that starts with it goes on as if it did not. -/
theorem applyReplicaBatch_again (hle : t' ≤ t)
    (h : applyReplicaBatch k originRoot p now (pre ++ [(e, t)]) = (p', .ok ())) :
    applyReplicaBatch k originRoot p' now' ((e, t') :: post) =
      applyReplicaBatch k originRoot p' now' post := by
  rw [applyReplicaBatch_append] at h
  split at h
  · rename_i p₁ _ _
    have hagain : applyEvent k originRoot (applyEvent k originRoot p₁ e t now).1 e t' now' = _ :=
      applyEvent_again hle
    rw [applyReplicaBatch] at h
    split at h
    · rename_i happly
      cases h
      rw [happly] at hagain
      rw [applyReplicaBatch, hagain]
    · cases h
  · cases h

theorem applyReplicaBatch_twice (hle : t' ≤ t) :
    applyReplicaBatch k originRoot p now (pre ++ (e, t) :: (e, t') :: post) =
      applyReplicaBatch k originRoot p now (pre ++ (e, t) :: post) := by
  rw [List.append_cons pre _ (_ :: _), List.append_cons pre _ post,
    applyReplicaBatch_append _ (_ :: _), applyReplicaBatch_append _ post]
  split
  · rename_i hpre
    exact applyReplicaBatch_again hle hpre
  · rfl

/-! ### The writer's batches -/

namespace ReplicaWriter

def replicaBatchSize : Nat := 64

/-- A chunk is transcoded as a whole before any of it is applied. -/
def applyChunks (w : ReplicaWriter V S T) (now : Timestamp) (p : ReplicaPartition V S T) :
    List (List (WatchEvent V S T × Timestamp)) →
      ReplicaPartition V S T × Except ResourceError Unit
  | [] => (p, .ok ())
  | batch :: rest =>
    match batch.mapM fun (event, syncedAt) => (w.transcode event).map (·, syncedAt) with
    | .error e => (p, .error e)
    | .ok serialized =>
      match applyReplicaBatch w.kind w.originRoot p now serialized with
      | (p, .ok _) => w.applyChunks now p rest
      | (p, .error e) => (p, .error e)

def applyBatch (w : ReplicaWriter V S T) (p : ReplicaPartition V S T)
    (events : List (WatchEvent V S T)) (syncedAt now : Timestamp) :
    ReplicaPartition V S T × Except ResourceError Unit :=
  match ensureReplicationEnabled w.kind with
  | .error e => (p, .error e)
  | .ok _ => w.applyChunks now p ((events.map (·, syncedAt)).toChunks replicaBatchSize)

/-- The cursor moves only after the whole batch is applied. -/
def applyDirectBatch (w : ReplicaWriter V S T) (p : ReplicaPartition V S T)
    (events : List (WatchEvent V S T)) (syncedAt now : Timestamp) :
    ReplicaPartition V S T × Except ResourceError Unit :=
  if events.isEmpty then (p, .ok ())
  else match w.proveBatch p events with
    | .error e => (p, .error e)
    | .ok (previous, next) =>
      match w.applyBatch p events syncedAt now with
      | (p, .error e) => (p, .error e)
      | (p, .ok _) =>
        match p.advanceCursor previous next with
        | .error e => (p, .error e)
        | .ok p => (p, .ok ())

/-- What a restart does with an event whose cursor was not written yet. -/
theorem applyBatch_again (hle : t' ≤ t) (h : w.applyBatch p [e] t now = (p', .ok ())) :
    w.applyBatch p' [e] t' now' = (p', .ok ()) := by
  have hone : ∀ (q : ReplicaPartition V S T) (s n : Timestamp),
      w.applyChunks n q (([e].map (·, s)).toChunks replicaBatchSize) =
        match w.transcode e with
        | .error err => (q, .error err)
        | .ok e => applyReplicaBatch w.kind w.originRoot q n [(e, s)] := by
    intro q s n
    show w.applyChunks n q [[(e, s)]] = _
    simp only [applyChunks, List.mapM_cons, List.mapM_nil]
    cases w.transcode e with
    | error err => rfl
    | ok e =>
      rcases happly : applyReplicaBatch w.kind w.originRoot q n [(e, s)] with ⟨q', _ | _⟩ <;>
        simp [Except.map, bind, Except.bind, pure, Except.pure, happly]
  unfold applyBatch at h ⊢
  split at h
  · cases h
  · rw [hone] at h ⊢
    split at h
    · cases h
    · rw [← List.nil_append [_]] at h
      exact applyReplicaBatch_again hle h

/-- A batch whose versions do not follow the cursor changes nothing. -/
theorem applyDirectBatch_refused (h : ∀ r, w.proveBatch p events ≠ .ok r) :
    (w.applyDirectBatch p events t now).1 = p := by
  unfold applyDirectBatch
  split
  · rfl
  · cases hprove : w.proveBatch p events with
    | error err => rfl
    | ok r => exact absurd hprove (h r)

/-- The event a direct batch ends in is refused from then on. -/
theorem applyDirectBatch_passed (h : w.applyDirectBatch p (events ++ [e]) t now = (p', .ok ())) :
    (w.applyDirectBatch p' (e :: rest) t' now').1 = p' := by
  have hcursor : ∃ generation, p'.cursor = some ⟨e.resourceVersion, generation⟩ := by
    unfold applyDirectBatch at h
    rw [if_neg (by simp)] at h
    split at h
    · cases h
    · rename_i previous last hprove
      obtain ⟨-, n, -, hlast⟩ := proveBatch_eq_ok hprove
      split at h
      · cases h
      · unfold ReplicaPartition.advanceCursor at h
        split_ifs at h
        · cases h
        · cases h
          exact ⟨previous.generation, by rw [contiguous_last hlast]⟩
  obtain ⟨generation, hcursor⟩ := hcursor
  refine applyDirectBatch_refused fun ⟨previous, last⟩ hprove => ?_
  obtain ⟨hprevious, n, hn, hlast⟩ := proveBatch_eq_ok hprove
  cases hcursor.symm.trans hprevious
  exact contiguous_passed hlast hn

theorem applyDirectBatch_repeated :
    (w.applyDirectBatch p (events ++ e :: e :: rest) t now).1 = p := by
  refine applyDirectBatch_refused fun ⟨previous, last⟩ hprove => ?_
  obtain ⟨-, n, -, hlast⟩ := proveBatch_eq_ok hprove
  exact contiguous_repeated hlast

end ReplicaWriter

def eventWriter : ReplicaWriter Unit EventTree Unit := ⟨eventReplicas, "origin", .ok⟩

/-- An event that reached the partition and not the cursor. -/
def uncommitted (syncedAt : Timestamp) : ReplicaPartition Unit EventTree Unit :=
  (eventWriter.applyBatch { cursor := some ⟨"1", none⟩ } [.added (eventObject "a" 2 "m")]
    syncedAt 0).1

end Flotilla.Replica
