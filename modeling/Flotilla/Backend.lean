import Flotilla.Replica.Reconcile

/-!
# The in-memory backend

All streams and all replica partitions of one backend.  A call runs under the
lock of one of them and leaves the others alone, so an invariant of one stream
and one of one partition hold throughout once each call keeps them.

`runAll_indexed` : after every sequence of calls whose listings name each object
once, both indexes of every stream and partition are those of its objects, and
every replica object has a sync time.
-/

namespace Flotilla

open Lib Std
open Memory
open Replica
open Query (QueryIndex)

/-! ### Calls -/

section Calls

variable {V S T : Type} [DecidableEq V] [DecidableEq S] [DecidableEq T]

/-- A call on a replica partition. -/
inductive ReplicaCall (V S T : Type) where
  | apply (e : WatchEvent V S T) (syncedAt now : Timestamp)
  | applyBatch (events : List (WatchEvent V S T × Timestamp)) (now : Timestamp)
  | replace (listed : ResourceList V S T) (syncedAt now : Timestamp) (bucket : Option (Fin 256))
  | invalidateCursor
  | advanceCursor (previous : ReplicaCursor) (next : String)
  | confirmDigest (ns : String) (proof : PartitionDigest V S T) (previous : ReplicaCursor)

/-- A call that fails leaves what it did before it failed. -/
def ReplicaCall.run (k : RepairKind V S T) (originRoot : NodeId) (p : ReplicaPartition V S T) :
    ReplicaCall V S T → ReplicaPartition V S T
  | .apply e syncedAt now => (applyEvent k.replicas originRoot p e syncedAt now).1
  | .applyBatch events now => (applyReplicaBatch k.replicas originRoot p now events).1
  | .replace listed syncedAt now bucket =>
    match replaceReplicas k.replicas originRoot p listed syncedAt now bucket with
    | .ok p' => p'
    | .error _ => p
  | .invalidateCursor => p.invalidateCursor
  | .advanceCursor previous next =>
    match p.advanceCursor previous next with
    | .ok p' => p'
    | .error _ => p
  | .confirmDigest ns proof previous =>
    match confirmReplicaDigest k originRoot ns p proof previous with
    | .ok p' => p'
    | .error _ => p

/-- A listing names every object once. -/
def ReplicaCall.ListsOnce : ReplicaCall V S T → Prop
  | .replace listed _ _ _ => (listed.items.map (·.metadata.name)).Nodup
  | _ => True

omit [DecidableEq V] [DecidableEq S] [DecidableEq T] in
/-- A bucket that passed the check of its snapshot is listed once. -/
theorem listsOnce_of_snapshot {sha256 : Sha256} {paths : ApiPaths}
    {decode : ResourceObject V S T → Except ResourceError (S × Option T)}
    {d expected : PartitionDigest V S T} {bucket : Fin 256} {listed : ResourceList V S T}
    (h : d.snapshot sha256 paths decode expected bucket = .ok listed) (syncedAt now : Timestamp) :
    (ReplicaCall.replace listed syncedAt now (some bucket)).ListsOnce := by
  obtain ⟨-, _, _, -, hloop⟩ := PartitionDigest.snapshot_eq_ok h
  exact (PartitionDigest.snapshotItems_eq_ok hloop).2.2

end Calls

section Family

variable {K : Type} [DecidableEq K] {V S T : K → Type}

/-- The streams by key, and the partitions by origin and key; one that was never touched is
empty. -/
structure Backend (V S T : K → Type) where
  stores : (key : K) → ResourceStore (V key) (S key) (T key) := fun _ => {}
  replicas : NodeId → (key : K) → ReplicaPartition (V key) (S key) (T key) := fun _ _ => {}

/-- The stream of every key, how its replicas are printed, and what its digests cover. -/
structure BackendConfig (V S T : K → Type) where
  stream : (key : K) → Stream (V key) (S key) (T key)
  text : (key : K) → ResourceObject (V key) (S key) (T key) → String
  group : K → String
  version : K → String
  decode : (key : K) → ResourceObject (V key) (S key) (T key) →
    Except ResourceError (S key × Option (T key))

def BackendConfig.repairKind (c : BackendConfig V S T) (key : K) :
    RepairKind (V key) (S key) (T key) where
  replicas := ⟨(c.stream key).kind, c.text key⟩
  group := c.group key
  version := c.version key
  decode := c.decode key

inductive BackendCall (V S T : K → Type) where
  | write (key : K) (w : Write (V key) (S key) (T key))
  | replica (originRoot : NodeId) (key : K) (call : ReplicaCall (V key) (S key) (T key))

def BackendCall.ListsOnce : BackendCall V S T → Prop
  | .write _ _ => True
  | .replica _ _ call => call.ListsOnce

variable [∀ key, DecidableEq (V key)] [∀ key, DecidableEq (S key)] [∀ key, DecidableEq (T key)]

def Backend.run (c : BackendConfig V S T) (b : Backend V S T) : BackendCall V S T → Backend V S T
  | .write key w =>
    { b with stores := Function.update b.stores key (w.run (c.stream key) (b.stores key)) }
  | .replica originRoot key call =>
    { b with
      replicas := Function.update b.replicas originRoot (Function.update (b.replicas originRoot) key
        (call.run (c.repairKind key) originRoot (b.replicas originRoot key))) }

def Backend.runAll (c : BackendConfig V S T) (b : Backend V S T)
    (calls : List (BackendCall V S T)) : Backend V S T :=
  calls.foldl (Backend.run c) b

/-- An invariant of every stream and one of every partition, each kept by the calls on it. -/
theorem Backend.runAll_invariant {c : BackendConfig V S T}
    {L : (key : K) → ResourceStore (V key) (S key) (T key) → Prop}
    {R : (key : K) → ReplicaPartition (V key) (S key) (T key) → Prop}
    (hwrite : ∀ key s, L key s → ∀ w : Write (V key) (S key) (T key),
      L key (w.run (c.stream key) s))
    (hcall : ∀ key originRoot p, R key p → ∀ call : ReplicaCall (V key) (S key) (T key),
      call.ListsOnce → R key (call.run (c.repairKind key) originRoot p))
    {b : Backend V S T} (hstores : ∀ key, L key (b.stores key))
    (hreplicas : ∀ originRoot key, R key (b.replicas originRoot key))
    {calls : List (BackendCall V S T)} (hcalls : ∀ call ∈ calls, call.ListsOnce) :
    (∀ key, L key ((b.runAll c calls).stores key)) ∧
      ∀ originRoot key, R key ((b.runAll c calls).replicas originRoot key) := by
  induction calls generalizing b with
  | nil => exact ⟨hstores, hreplicas⟩
  | cons call calls ih =>
    refine ih ?_ ?_ fun call' h => hcalls call' (List.mem_cons_of_mem call h)
    · intro key
      cases call with
      | replica originRoot key' call => exact hstores key
      | write key' w =>
        by_cases hkey : key = key'
        · subst hkey
          simp only [Backend.run, Function.update_self]
          exact hwrite key _ (hstores key) w
        · simp only [Backend.run, Function.update_of_ne hkey]
          exact hstores key
    · intro originRoot key
      cases call with
      | write key' w => exact hreplicas originRoot key
      | replica originRoot' key' call =>
        by_cases horigin : originRoot = originRoot'
        · subst horigin
          simp only [Backend.run, Function.update_self]
          by_cases hkey : key = key'
          · subst hkey
            rw [Function.update_self]
            exact hcall key originRoot _ (hreplicas originRoot key) call
              (hcalls _ List.mem_cons_self)
          · rw [Function.update_of_ne hkey]
            exact hreplicas originRoot key
        · simp only [Backend.run, Function.update_of_ne horigin]
          exact hreplicas originRoot key

end Family

/-! ### One stream -/

section Stream

variable {V S T : Type} {c : Stream V S T} {s s' : ResourceStore V S T}
  {I : DigestIndex → QueryIndex → BTreeMap String (ResourceObject V S T) → Prop}

theorem commit_tracks (hI : Tracks c.kind I) (h : I s.digest s.queries s.objects) {version : Nat}
    {change : Change V S T} (hchange : change.WellFormed s version) :
    I (s.commit c version change).digest (s.commit c version change).queries
      (s.commit c version change).objects := by
  cases change with
  | added name o | modified name o =>
    obtain ⟨⟨rfl, -⟩, hversion⟩ := hchange
    have hput := hI.put h o
    rw [hversion] at hput
    exact hput
  | deleted name o =>
    obtain ⟨⟨rfl, -⟩, -⟩ := hchange
    exact hI.remove h o.metadata.name
  | tombstone t =>
    -- There is nothing of the name in the indexes, and taking it out changes nothing.
    have hremove := hI.remove h t.name
    have habsent : t.name ∉ s.objects := by
      rw [ExtTreeMap.mem_iff_isSome_getElem?, hchange.1]
      simp
    rw [BTreeMap.erase_eq_self_iff.mpr habsent] at hremove
    exact hremove

theorem Effect.tracks (hI : Tracks c.kind I) (hs : Keyed s) (h : I s.digest s.queries s.objects)
    {takes encodes : Prop} (heffect : Effect c s takes encodes s') :
    Keyed s' ∧ I s'.digest s'.queries s'.objects := by
  cases heffect with
  | unchanged => exact ⟨hs, h⟩
  | wasted _ _ _ => exact ⟨hs, h⟩
  | @logged next hnext htakes change hchange =>
    have hchange' : change.WellFormed { s with nextVersion := next } s.nextVersion := by
      cases change <;> exact hchange
    exact ⟨keyed_commit hs hchange',
      commit_tracks (s := { s with nextVersion := next }) hI h hchange'⟩

/-- What is indexed of a stream. -/
structure StreamIndexed (k : ResourceKind V S T) (s : ResourceStore V S T) : Prop where
  keyed : Keyed s
  digests : Digests k s.digest s.objects
  queries : Queries k s.queries s.objects

theorem streamIndexed_empty (k : ResourceKind V S T) : StreamIndexed k {} where
  keyed name o h := by simp at h
  digests := digests_empty k
  queries := queries_empty k

theorem StreamIndexed.run [DecidableEq V] (h : StreamIndexed c.kind s) (w : Write V S T) :
    StreamIndexed c.kind (w.run c s) := by
  have heffect := w.effect (c := c) h.keyed
  have hdigests := Effect.tracks (s := { s with nextVersion := w.counter s })
    (tracks_digests c.kind) h.keyed h.digests heffect
  have hqueries := Effect.tracks (s := { s with nextVersion := w.counter s })
    (tracks_queries c.kind) h.keyed h.queries heffect
  exact ⟨hdigests.1, hdigests.2, hqueries.2⟩

end Stream

/-! ### One partition -/

section Partition

variable {V S T : Type} [DecidableEq V] [DecidableEq S] [DecidableEq T] {k : ReplicaKind V S T}
  {originRoot : NodeId} {p p' : ReplicaPartition V S T}

/-- What is recorded of a partition's bodies. -/
structure PartitionIndexed (k : ReplicaKind V S T) (p : ReplicaPartition V S T) : Prop where
  digests : Digests k.kind p.digest p.objects
  queries : Queries k.kind p.queries p.objects
  synced : ∀ name : String, p.objects[name]?.isSome = true → p.syncedAtByName[name]?.isSome = true

omit [DecidableEq V] [DecidableEq S] [DecidableEq T] in
theorem partitionIndexed_empty (k : ReplicaKind V S T) : PartitionIndexed k {} where
  digests := digests_empty k.kind
  queries := queries_empty k.kind
  synced name h := by simp at h

omit [DecidableEq V] [DecidableEq S] [DecidableEq T] in
theorem PartitionIndexed.effect (h : PartitionIndexed k p) {e : WatchEvent V S T}
    {syncedAt : Timestamp} (heffect : EventEffect k originRoot p e syncedAt p') :
    PartitionIndexed k p' where
  digests := heffect.tracks (tracks_digests k.kind) h.digests
  queries := heffect.tracks (tracks_queries k.kind) h.queries
  synced name hname := by
    cases heffect with
    | refused _ _ _ => exact h.synced name hname
    | stale _ _ => exact h.synced name hname
    | put _ _ _ =>
      simp only [ReplicaPartition.put, ExtTreeMap.getElem?_insert] at hname ⊢
      split at hname
      next heq => rw [if_pos heq]; rfl
      next hne => rw [if_neg hne]; exact h.synced name hname
    | removed _ _ _ _ =>
      simp only [ReplicaPartition.remove, ExtTreeMap.getElem?_erase,
        ExtTreeMap.getElem?_insert] at hname ⊢
      split at hname
      · cases hname
      next hne => rw [if_neg hne]; exact h.synced name hname

theorem PartitionIndexed.applyEvent (h : PartitionIndexed k p) (e : WatchEvent V S T)
    (syncedAt now : Timestamp) :
    PartitionIndexed k (Replica.applyEvent k originRoot p e syncedAt now).1 := by
  rcases applyEvent_cases k originRoot p e syncedAt now with ⟨err, hrun⟩ | ⟨p', hrun, heffect⟩
  · rw [hrun]
    exact h
  · rw [hrun]
    exact h.effect heffect

theorem PartitionIndexed.applyBatch (h : PartitionIndexed k p) (now : Timestamp)
    (events : List (WatchEvent V S T × Timestamp)) :
    PartitionIndexed k (applyReplicaBatch k originRoot p now events).1 := by
  induction events generalizing p with
  | nil => exact h
  | cons event events ih =>
    obtain ⟨e, syncedAt⟩ := event
    have hone : PartitionIndexed k (Replica.applyEvent k originRoot p e syncedAt now).1 :=
      h.applyEvent e syncedAt now
    unfold applyReplicaBatch
    rcases hrun : Replica.applyEvent k originRoot p e syncedAt now with ⟨p', _ | _⟩
    · rw [hrun] at hone
      exact hone
    · rw [hrun] at hone
      exact ih hone

/-- After a replacement a body that is there was there before, or is stamped with its time. -/
theorem PartitionIndexed.replace (h : PartitionIndexed k p) {listed : ResourceList V S T}
    {syncedAt now : Timestamp} {bucket : Option (Fin 256)}
    (hreplace : replaceReplicas k originRoot p listed syncedAt now bucket = .ok p')
    (hnodup : (listed.items.map (·.metadata.name)).Nodup) : PartitionIndexed k p' where
  digests := tracks_replaceReplicas (tracks_digests k.kind) h.digests hreplace hnodup
  queries := tracks_replaceReplicas (tracks_queries k.kind) h.queries hreplace hnodup
  synced name hname := by
    obtain ⟨x, hx, hobject, hsynced⟩ := replaceReplicas_lookup hreplace hnodup name
    rw [hobject] at hname
    rw [hsynced]
    cases hheld : p.objects[name]? with
    | some held =>
      rw [hx]
      exact isSome_syncedAt_settle _ _ (h.synced name (by rw [hheld]; rfl))
    | none =>
      -- Nothing was held, so a body is there only because it was listed and accepted.
      have hstart : startAt p bucket name = ⟨none, none, p.syncedAtByName[name]?⟩ := by
        simp [startAt, hheld]
      rw [hx, hstart] at hname ⊢
      cases hitem : listedAt listed name with
      | none => simp [hitem, NameState.settle, NameState.finish] at hname
      | some encoded =>
        cases hvalid : k.valid encoded with
        | true => simp [settle_valid hvalid, NameState.accept]
        | false => simp [hitem, settle_invalid hvalid, NameState.restore] at hname

theorem PartitionIndexed.run {k : RepairKind V S T} (h : PartitionIndexed k.replicas p)
    (call : ReplicaCall V S T) (hcall : call.ListsOnce) :
    PartitionIndexed k.replicas (call.run k originRoot p) := by
  cases call with
  | apply e syncedAt now => exact h.applyEvent e syncedAt now
  | applyBatch events now => exact h.applyBatch now events
  | replace listed syncedAt now bucket =>
    rw [ReplicaCall.run]
    split
    next p' hreplace => exact h.replace hreplace hcall
    next => exact h
  | invalidateCursor => exact ⟨h.digests, h.queries, h.synced⟩
  | advanceCursor previous next =>
    rw [ReplicaCall.run]
    split
    next p' hadvance =>
      unfold ReplicaPartition.advanceCursor at hadvance
      split at hadvance
      · cases hadvance
      · cases hadvance
        exact ⟨h.digests, h.queries, h.synced⟩
    next => exact h
  | confirmDigest ns proof previous =>
    rw [ReplicaCall.run]
    split
    next p' hconfirm =>
      dsimp only [confirmReplicaDigest] at hconfirm
      split at hconfirm
      · cases hconfirm
      · cases hconfirm
        exact ⟨h.digests, h.queries, h.synced⟩
    next => exact h

end Partition

/-! ### The backend -/

section Indexed

variable {V S T : Type}

/-- The query index made anew from the objects. -/
def rebuilt (k : ResourceKind V S T) (objects : BTreeMap String (ResourceObject V S T)) :
    QueryIndex :=
  QueryIndex.updateAll k.schema (objects.toList.map fun e => (e.1, some (k.tree e.2)))

theorem eq_rebuilt {k : ResourceKind V S T} {queries : QueryIndex}
    {objects : BTreeMap String (ResourceObject V S T)} (h : Queries k queries objects) :
    queries = rebuilt k objects := by
  have hstored : Query.storeAll (objects.toList.map fun e => (e.1, some (k.tree e.2))) =
      objects.map fun _ o => k.tree o := by
    apply ExtTreeMap.ext_getElem?
    intro name
    rw [Query.storeAll, List.foldl_map, ExtTreeMap.getElem?_map]
    -- Each entry puts its own tree in, under a key that no other entry has.
    have hother : ∀ (m : BTreeMap String Json) (e : String × ResourceObject V S T) (name : String),
        e.1 ≠ name → (Query.store m e.1 (some (k.tree e.2)))[name]? = m[name]? := by
      intro m e name hne
      rw [Query.store, ExtTreeMap.getElem?_insert, if_neg (by rwa [Std.compare_eq_iff_eq])]
    cases hname : objects[name]? with
    | none =>
      rw [view_foldl_other (fun m name => m[name]?) hother]
      · simp
      · intro e he heq
        rw [ExtTreeMap.mem_toList_iff_getElem?_eq_some, heq, hname] at he
        cases he
    | some o =>
      have hmem : (name, o) ∈ objects.toList :=
        ExtTreeMap.mem_toList_iff_getElem?_eq_some.mpr hname
      exact view_foldl_key (fun m name => m[name]?)
        (f := fun e _ => some (k.tree e.2)) (fun m e => by simp [Query.store]) hother
        (nodup_keys_toList objects) hmem ∅
  have hrebuilt := Query.run_reflects k.schema
    (objects.toList.map fun e => (e.1, some (k.tree e.2)))
  rw [hstored] at hrebuilt
  exact Query.Reflects.unique h hrebuilt

end Indexed

section Runs

variable {K : Type} [DecidableEq K] {V S T : K → Type}
  [∀ key, DecidableEq (V key)] [∀ key, DecidableEq (S key)] [∀ key, DecidableEq (T key)]

/-- **The indexes and sync times are those of the objects**, in every stream and every partition,
after every sequence of calls whose listings name each object once. -/
theorem runAll_indexed (c : BackendConfig V S T) (calls : List (BackendCall V S T))
    (hcalls : ∀ call ∈ calls, call.ListsOnce) :
    (∀ key, let s := (Backend.runAll c {} calls).stores key
      Digests (c.stream key).kind s.digest s.objects ∧
        s.queries = rebuilt (c.stream key).kind s.objects) ∧
    ∀ originRoot key, let p := (Backend.runAll c {} calls).replicas originRoot key
      Digests (c.stream key).kind p.digest p.objects ∧
        p.queries = rebuilt (c.stream key).kind p.objects ∧
        ∀ (name : String) o, p.objects[name]? = some o →
          ∃ syncedAt, p.syncedAtByName[name]? = some syncedAt := by
  obtain ⟨hstores, hreplicas⟩ := Backend.runAll_invariant
    (fun key s hs w => hs.run w) (fun key originRoot p hp call hcall => hp.run call hcall)
    (b := {}) (fun key => streamIndexed_empty _) (fun originRoot key => partitionIndexed_empty _)
    hcalls
  refine ⟨fun key => ?_, fun originRoot key => ?_⟩
  · exact ⟨(hstores key).digests, eq_rebuilt (hstores key).queries⟩
  · have hp := hreplicas originRoot key
    refine ⟨hp.digests, eq_rebuilt hp.queries, fun name o ho => ?_⟩
    exact Option.isSome_iff_exists.mp (hp.synced name (by rw [ho]; rfl))

end Runs

/-! ### Events -/

def eventBackend :
    BackendConfig (K := Unit) (fun _ => Unit) (fun _ => EventTree) fun _ => Unit where
  stream _ := eventStream
  text _ := eventReplicas.text
  group _ := "flotilla.work"
  version _ := "v1"
  decode _ o := .ok (o.spec, o.status)

/-- The replacement of a bucket, or of everything, over version 2 of `sync`. -/
def replaceSync (items : List (ResourceObject Unit EventTree Unit)) (bucket : Option (Fin 256)) :
    List (BackendCall (K := Unit) (fun _ => Unit) (fun _ => EventTree) fun _ => Unit) :=
  [.write () (createEvent "a"), .write () (.delete 1 "a"),
    .replica "iad" () (.apply (.added (eventObject "sync" 2 "held")) 10 100),
    .replica "iad" () (.replace ⟨items, "4", none⟩ 20 100 bucket)]

theorem runAll_indexed_repaired :
    let calls := replaceSync [eventObject "sync" 3 "listed"] (some (eventReplicas.bucketOf "sync"))
    let p := (Backend.runAll eventBackend {} calls).replicas "iad" ()
    (∀ call ∈ calls, call.ListsOnce) ∧
      p.objects["sync"]? = some (eventObject "sync" 3 "listed") ∧
      Digests eventKind p.digest p.objects ∧ p.queries = rebuilt eventKind p.objects := by
  intro calls p
  have honce : ∀ call ∈ calls, call.ListsOnce := by
    intro call hcall
    simp only [calls, replaceSync, List.mem_cons, List.not_mem_nil, or_false] at hcall
    rcases hcall with rfl | rfl | rfl | rfl
    · trivial
    · trivial
    · trivial
    · exact List.nodup_singleton _
  obtain ⟨hdigests, hqueries, -⟩ := (runAll_indexed eventBackend calls honce).2 "iad" ()
  exact ⟨honce, by decide +kernel, hdigests, hqueries⟩

/-- A full replacement that lists `sync` with a body and with one that does not decode puts the
held body back after the index has taken the listed one. -/
theorem runAll_indexed_listed_twice :
    let broken := { eventObject "sync" 4 "broken" with spec := ⟨none, "broken"⟩ }
    let p := (Backend.runAll eventBackend {}
      (replaceSync [eventObject "sync" 3 "listed", broken] none)).replicas "iad" ()
    p.objects["sync"]? = some (eventObject "sync" 2 "held") ∧
      (p.digest.entries (eventReplicas.bucketOf "sync"))["sync"]? = some "3" ∧
      ¬ Digests eventKind p.digest p.objects := by
  intro broken p
  have hobject : p.objects["sync"]? = some (eventObject "sync" 2 "held") := by decide +kernel
  have hentry : (p.digest.entries (eventReplicas.bucketOf "sync"))["sync"]? = some "3" := by
    decide +kernel
  refine ⟨hobject, hentry, fun hdigests => ?_⟩
  have hbucket := congrArg (·["sync"]?) (hdigests.entries (eventReplicas.bucketOf "sync"))
  revert hbucket
  decide +kernel

end Flotilla
