import Flotilla.Memory.Log
import Flotilla.Replica.Replace

/-!
# Repairing a replica by digests

The direct consumer of an origin compares, from time to time, the root over the
replica's index with the authority's.  Where they differ it fetches the 256
hashes and then every differing bucket, asks once more whether the cut is still
current, and only then replaces the buckets and moves the cursor to the cut.

The authority goes on writing: each request is answered by another state of it,
and may also fail.
-/

namespace Flotilla.Replica

open Lib
open Memory

variable {V S T : Type}

/-- What a repair needs of a kind: its group and version, which the root covers,
and the typed decoding of the listed trees. -/
structure RepairKind (V S T : Type) where
  replicas : ReplicaKind V S T
  group : String
  version : String
  decode : ResourceObject V S T → Except ResourceError (S × Option T)

namespace RepairKind

def paths (k : RepairKind V S T) : ApiPaths := ⟨k.group, k.version, k.replicas.kind.kind⟩

def sha256 (k : RepairKind V S T) : Sha256 := k.replicas.kind.sha256

def partitionDigest (k : RepairKind V S T) (origin : NodeId) (ns : String)
    (generation : Option String) (resourceVersion : String) (index : DigestIndex) :
    PartitionDigest V S T :=
  .new k.sha256 k.paths origin ns generation resourceVersion (index.hashes k.sha256)

end RepairKind

/-! ### The authority -/

def versionsOf (objects : BTreeMap String (ResourceObject V S T)) : BTreeMap String String :=
  objects.map fun _ o => o.metadata.resourceVersion

/-- A state of the authority's stream.  Its texts are shorter than a length can count. -/
structure Authority (k : RepairKind V S T) where
  generation : Option String
  store : ResourceStore V S T
  keyed : Keyed store
  digests : Digests k.replicas.kind store.digest store.objects
  short : Short (versionsOf store.objects)

namespace Authority

variable {k : RepairKind V S T}

def versions (a : Authority k) : BTreeMap String String := versionsOf a.store.objects

/-- The objects of a bucket, by the index. -/
def bucketItems (a : Authority k) (bucket : Fin 256) :
    Except ResourceError (List (ResourceObject V S T)) :=
  (a.store.digest.names bucket).mapM fun name => do
    let value ← okOr a.store.objects[name]? (.invalid "incomplete digest index")
    let _ ← decodeObject k.replicas.kind value
    return value

def digest (localRoot : NodeId) (ns : String) (a : Authority k) : PartitionDigest V S T :=
  k.partitionDigest localRoot ns a.generation (toString a.store.currentVersion) a.store.digest

def digestRaw (localRoot : NodeId) (ns : String) (a : Authority k) (query : DigestQuery) :
    Except ResourceError (PartitionDigest V S T) := do
  let response ← (a.digest localRoot ns).select query
  match query with
  | .snapshot _ bucket =>
    let items ← a.bucketItems bucket
    return { response with bucket := some bucket, items := some items }
  | _ => return response

/-- What a request gets: the answer of the state it reaches, or a failure on the way. -/
def answer (localRoot : NodeId) (ns : String) (authority : Nat → Authority k)
    (lost : Nat → Option String) (request : Nat) (query : DigestQuery) :
    Except String (PartitionDigest V S T) :=
  match lost request with
  | some message => .error message
  | none => do
    (ensureReplicationEnabled k.replicas).mapError ResourceError.render
    ((authority request).digestRaw localRoot ns query).mapError ResourceError.render

end Authority

/-! ### The replica -/

def replicaDigest (k : RepairKind V S T) (originRoot : NodeId) (ns : String)
    (generation : Option String) (p : ReplicaPartition V S T) : PartitionDigest V S T :=
  k.partitionDigest originRoot ns generation "" p.digest

def confirmReplicaDigest (k : RepairKind V S T) (originRoot : NodeId) (ns : String)
    (p : ReplicaPartition V S T) (proof : PartitionDigest V S T) (previous : ReplicaCursor) :
    Except ResourceError (ReplicaPartition V S T) :=
  let digest := replicaDigest k originRoot ns previous.generation p
  if digest.root ≠ proof.root ∨ p.cursor ≠ some previous then
    .error (.invalid "replica set changed during digest repair")
  else .ok { p with cursor := some ⟨proof.resourceVersion, proof.generation⟩ }

/-- `ReplicaWriter::confirm_digest_position`. -/
def confirmDigestPosition (k : RepairKind V S T) (originRoot : NodeId) (ns : String)
    (p : ReplicaPartition V S T) (proof : PartitionDigest V S T) (previous : ReplicaCursor) :
    Except ResourceError (ReplicaPartition V S T) :=
  if proof.origin ≠ originRoot ∨ proof.kind ≠ k.paths.kind ∨ proof.ns ≠ ns
      ∨ proof.generation ≠ previous.generation then
    .error (.invalid "digest prefix identity mismatch")
  else confirmReplicaDigest k originRoot ns p proof previous

/-! ### The repair -/

def replicationNamespace : String := "flotilla"

section Repair

variable (k : RepairKind V S T) (fetch : Nat → DigestQuery → Except String (PartitionDigest V S T))

/-- Fetch and check every bucket whose hashes differ, one request for each. -/
def fetchBuckets (children : PartitionDigest V S T) (root : String) (request : Nat) :
    List ((String × String) × Nat) → Except String (List (Fin 256 × ResourceList V S T))
  | [] => return []
  | ((authority, replica), index) :: rest =>
    if authority = replica then fetchBuckets children root request rest
    else do
      let bucket := Fin.ofNat 256 index
      let snapshot ← fetch request (.snapshot root bucket)
      let listed ← (snapshot.snapshot k.sha256 k.paths k.decode children bucket).mapError
        ResourceError.render
      let snapshots ← fetchBuckets children root (request + 1) rest
      return (bucket, listed) :: snapshots

/-- A cut of the authority with the buckets that differ from it. -/
structure Repair (V S T : Type) where
  remote : PartitionDigest V S T
  previous : ReplicaCursor
  snapshots : List (Fin 256 × ResourceList V S T)

/-- The requests of the repair, before anything is written. -/
def findRepair (originRoot : NodeId) (ns : String) (peer : NodeId) (p : ReplicaPartition V S T) :
    Except String (Option (Repair V S T)) := do
  let remote ← fetch 0 .root
  refuseIf (remote.origin ≠ peer ∨ remote.kind ≠ k.paths.kind ∨ remote.ns ≠ replicationNamespace)
    "digest authority identity mismatch"
  (ensureReplicationEnabled k.replicas).mapError ResourceError.render
  let previous ← okOr p.cursor "digest needs an established replica prefix"
  -- A new generation is left to the log's own check.
  refuseIf (previous.generation ≠ remote.generation)
    "digest generation changed; log reconnect required"
  let held := replicaDigest k originRoot ns previous.generation p
  if held.root = remote.root then return none
  else
    let children ← fetch 1 (.children remote.root)
    refuseIf (children.root ≠ remote.root ∨ children.origin ≠ remote.origin
      ∨ children.generation ≠ remote.generation ∨ children.kind ≠ remote.kind
      ∨ children.ns ≠ remote.ns) "digest tree changed during drill-down"
    (children.validateTree k.sha256 k.paths).mapError ResourceError.render
    let remoteHashes ← okOr (children.children.filter (·.length = 256)) "incomplete digest tree"
    let localHashes ← okOr held.children "incomplete replica digest tree"
    let snapshots ← fetchBuckets k fetch children remote.root 2
      (remoteHashes.zip localHashes).zipIdx
    -- A write during the last bucket read puts the whole repair off.
    let confirmed ← fetch (2 + snapshots.length) (.children remote.root)
    refuseIf (confirmed.root ≠ remote.root ∨ confirmed.generation ≠ remote.generation)
      "digest snapshot cut changed"
    return some ⟨remote, previous, snapshots⟩

variable [DecidableEq V] [DecidableEq S] [DecidableEq T]

def replaceBuckets (originRoot : NodeId) (ns : String) (syncedAt now : Timestamp)
    (p : ReplicaPartition V S T) :
    List (Fin 256 × ResourceList V S T) → ReplicaPartition V S T × Except ResourceError Unit
  | [] => (p, .ok ())
  | (bucket, listed) :: rest =>
    match replaceBucket k.replicas originRoot ns p bucket listed syncedAt now with
    | .error e => (p, .error e)
    | .ok p => replaceBuckets originRoot ns syncedAt now p rest

def reconcileDigest (originRoot : NodeId) (ns : String) (peer : NodeId) (syncedAt now : Timestamp)
    (p : ReplicaPartition V S T) : ReplicaPartition V S T × Except String Bool :=
  match findRepair k fetch originRoot ns peer p with
  | .error message => (p, .error message)
  | .ok none => (p, .ok false)
  | .ok (some repair) =>
    match replaceBuckets k originRoot ns syncedAt now p repair.snapshots with
    | (p, .error e) => (p, .error e.render)
    | (p, .ok _) =>
      match confirmDigestPosition k originRoot ns p repair.remote repair.previous with
      | .error e => (p, .error e.render)
      | .ok p => (p, .ok true)

end Repair

/-! ### What an answer says -/

section Answers

variable {k : RepairKind V S T} {localRoot : NodeId} {ns : String} {a : Authority k}
  {d : PartitionDigest V S T}

def Authority.root (localRoot : NodeId) (ns : String) (a : Authority k) : String :=
  (a.digest localRoot ns).root

/-- An answer is stamped with the state it was given in. -/
structure Answers (localRoot : NodeId) (ns : String) (a : Authority k)
    (d : PartitionDigest V S T) : Prop where
  origin : d.origin = localRoot
  partition : d.ns = ns
  generation : d.generation = a.generation
  resourceVersion : d.resourceVersion = toString a.store.currentVersion
  root : d.root = a.root localRoot ns

theorem answers_root (h : a.digestRaw localRoot ns .root = .ok d) : Answers localRoot ns a d := by
  cases h
  exact ⟨rfl, rfl, rfl, rfl, rfl⟩

variable {bucket : Fin 256} {expectedRoot : String}

theorem answers_children (h : a.digestRaw localRoot ns (.children expectedRoot) = .ok d) :
    Answers localRoot ns a d := by
  obtain ⟨response, hresponse, h⟩ := bind_eq_ok h
  cases h
  rw [PartitionDigest.select] at hresponse
  split_ifs at hresponse
  cases hresponse
  exact ⟨rfl, rfl, rfl, rfl, rfl⟩

/-- A snapshot is of the cut that was asked for. -/
theorem digestRaw_snapshot (h : a.digestRaw localRoot ns (.snapshot expectedRoot bucket) = .ok d) :
    Answers localRoot ns a d ∧ expectedRoot = a.root localRoot ns ∧
      ∃ values, a.bucketItems bucket = .ok values ∧ d.items = some values := by
  obtain ⟨response, hresponse, h⟩ := bind_eq_ok h
  obtain ⟨values, hvalues, h⟩ := bind_eq_ok h
  cases h
  rw [PartitionDigest.select] at hresponse
  split_ifs at hresponse with hroot
  cases hresponse
  exact ⟨⟨rfl, rfl, rfl, rfl, rfl⟩, not_not.mp hroot, values, hvalues, rfl⟩

theorem bucketItems_eq_ok {values : List (ResourceObject V S T)}
    (h : a.bucketItems bucket = .ok values) :
    values.map (·.metadata.name) = a.store.digest.names bucket ∧
      ∀ value ∈ values, a.store.objects[value.metadata.name]? = some value := by
  unfold Authority.bucketItems at h
  generalize a.store.digest.names bucket = names at h ⊢
  induction names generalizing values with
  | nil =>
    cases h
    exact ⟨rfl, by simp⟩
  | cons name names ih =>
    rw [List.mapM_cons] at h
    obtain ⟨value, hvalue, h⟩ := bind_eq_ok h
    obtain ⟨rest, hrest, h⟩ := bind_eq_ok h
    cases h
    obtain ⟨hnames, hlookup⟩ := ih hrest
    obtain ⟨held, hheld, hvalue⟩ := bind_eq_ok hvalue
    obtain ⟨_, -, hvalue⟩ := bind_eq_ok hvalue
    cases hvalue
    have hheld := okOr_eq_ok.mp hheld
    have hname : value.metadata.name = name := (a.keyed name value hheld).1
    exact ⟨by rw [List.map_cons, hname, hnames],
      List.forall_mem_cons.mpr ⟨by rwa [hname], hlookup⟩⟩

/-- **A snapshot that passes its check lists the bucket of the state it was read in.** -/
theorem lists_of_snapshot (h : a.digestRaw localRoot ns (.snapshot expectedRoot bucket) = .ok d)
    {children : PartitionDigest V S T} {listed : ResourceList V S T}
    (hlisted : d.snapshot k.sha256 k.paths k.decode children bucket = .ok listed) :
    a.root localRoot ns = expectedRoot ∧ a.generation = children.generation ∧
      PartitionDigest.Lists k.sha256 a.versions bucket listed.items := by
  obtain ⟨hanswers, hroot, values, hvalues, hitems⟩ := digestRaw_snapshot h
  obtain ⟨hnames, hlookup⟩ := bucketItems_eq_ok hvalues
  obtain ⟨hgeneration, values', entries, hvalues', hloop⟩ :=
    PartitionDigest.snapshot_eq_ok hlisted
  obtain rfl : values = values' := Option.some.inj (hitems.symm.trans hvalues')
  obtain ⟨hmetadata, hkeys, hnodup⟩ := PartitionDigest.snapshotItems_eq_ok hloop
  refine ⟨hroot.symm, hanswers.generation.symm.trans hgeneration, hnodup,
    fun o ho => (hkeys o ho).1, ?_, ?_⟩
  · intro o ho
    have hmem : o.metadata ∈ values.map (·.stripped.metadata) :=
      hmetadata ▸ List.mem_map.mpr ⟨o, ho, rfl⟩
    obtain ⟨value, hvalue, heq⟩ := List.mem_map.mp hmem
    have hheld := hlookup value hvalue
    rw [← heq]
    simp [Authority.versions, versionsOf, ResourceObject.stripped, hheld]
  · intro name version hversion hbucket
    have hname : name ∈ a.store.digest.names bucket := by
      refine (DigestIndex.Holds.mem_names a.digests).mpr ⟨?_, hbucket⟩
      exact BTreeMap.mem_of_lookup hversion
    rw [← hnames] at hname
    obtain ⟨value, hvalue, rfl⟩ := List.mem_map.mp hname
    have hmem : value.stripped.metadata ∈ listed.items.map (·.metadata) :=
      hmetadata ▸ List.mem_map.mpr ⟨value, hvalue, rfl⟩
    obtain ⟨o, ho, heq⟩ := List.mem_map.mp hmem
    exact ⟨o, ho, by rw [heq]; rfl⟩

end Answers

/-! ### What a repair rests on -/

section Found

variable {k : RepairKind V S T}
  {fetch : Nat → DigestQuery → Except String (PartitionDigest V S T)}

theorem fetchBuckets_eq_ok {children : PartitionDigest V S T} {root : String} {request : Nat}
    {entries : List ((String × String) × Nat)} {snapshots : List (Fin 256 × ResourceList V S T)}
    (h : fetchBuckets k fetch children root request entries = .ok snapshots) :
    snapshots.length ≤ entries.length ∧
      ∀ s ∈ snapshots, ∃ n d, n < request + entries.length ∧
        fetch n (.snapshot root s.1) = .ok d ∧
        d.snapshot k.sha256 k.paths k.decode children s.1 = .ok s.2 := by
  induction entries generalizing request snapshots with
  | nil =>
    cases h
    simp
  | cons entry entries ih =>
    obtain ⟨⟨authority, replica⟩, index⟩ := entry
    rw [fetchBuckets] at h
    rw [List.length_cons]
    by_cases hsame : authority = replica
    · rw [if_pos hsame] at h
      obtain ⟨hlength, hsnapshots⟩ := ih h
      refine ⟨by omega, fun s hs => ?_⟩
      obtain ⟨n, d, hn, hfetch, hlisted⟩ := hsnapshots s hs
      exact ⟨n, d, by omega, hfetch, hlisted⟩
    · rw [if_neg hsame] at h
      obtain ⟨d, hfetch, h⟩ := bind_eq_ok h
      obtain ⟨listed, hlisted, h⟩ := bind_eq_ok h
      obtain ⟨rest, hrest, h⟩ := bind_eq_ok h
      cases h
      obtain ⟨hlength, hsnapshots⟩ := ih hrest
      refine ⟨by rw [List.length_cons]; omega, fun s hs => ?_⟩
      rcases List.mem_cons.mp hs with rfl | hs
      · exact ⟨request, d, by omega, hfetch, mapError_eq_ok hlisted⟩
      · obtain ⟨n, d, hn, hfetch, hlisted⟩ := hsnapshots s hs
        exact ⟨n, d, by omega, hfetch, hlisted⟩

/-- The largest number of requests of one repair: the root, the hashes, every bucket, and the
hashes again. -/
def maxRequests : Nat := 259

/-- The answers that a repair was put together from. -/
structure Found (k : RepairKind V S T)
    (fetch : Nat → DigestQuery → Except String (PartitionDigest V S T))
    (p : ReplicaPartition V S T) (r : Repair V S T) : Prop where
  remote : fetch 0 .root = .ok r.remote
  previous : p.cursor = some r.previous
  generation : r.previous.generation = r.remote.generation
  snapshots : ∀ s ∈ r.snapshots, ∃ n < maxRequests, ∃ d children,
    fetch n (.snapshot r.remote.root s.1) = .ok d ∧
    d.snapshot k.sha256 k.paths k.decode children s.1 = .ok s.2 ∧
    children.generation = r.remote.generation
  confirmed : ∃ n < maxRequests, 2 ≤ n ∧ ∃ d, fetch n (.children r.remote.root) = .ok d ∧
    d.root = r.remote.root ∧ d.generation = r.remote.generation

theorem found_of_findRepair {originRoot : NodeId} {ns : String} {peer : NodeId}
    {p : ReplicaPartition V S T} {r : Repair V S T}
    (h : findRepair k fetch originRoot ns peer p = .ok (some r)) : Found k fetch p r := by
  obtain ⟨remote, hremote, h⟩ := bind_eq_ok h
  obtain ⟨_, -, h⟩ := bind_eq_ok h
  obtain ⟨_, -, h⟩ := bind_eq_ok h
  obtain ⟨previous, hprevious, h⟩ := bind_eq_ok h
  obtain ⟨hgeneration, h⟩ := of_refuseIf h
  dsimp only at h
  split_ifs at h with hroot
  · cases h
  obtain ⟨children, hchildren, h⟩ := bind_eq_ok h
  obtain ⟨hsame, h⟩ := of_refuseIf h
  obtain ⟨_, -, h⟩ := bind_eq_ok h
  obtain ⟨remoteHashes, hhashes, h⟩ := bind_eq_ok h
  obtain ⟨localHashes, -, h⟩ := bind_eq_ok h
  obtain ⟨snapshots, hsnapshots, h⟩ := bind_eq_ok h
  obtain ⟨confirmed, hconfirmed, h⟩ := bind_eq_ok h
  obtain ⟨hcut, h⟩ := of_refuseIf h
  cases h
  simp only [not_or, not_not] at hsame hcut
  obtain ⟨hlength, hsnapshots⟩ := fetchBuckets_eq_ok hsnapshots
  -- There are no more buckets than hashes.
  have hentries : (remoteHashes.zip localHashes).zipIdx.length ≤ 256 := by
    have hfull := (Option.filter_eq_some_iff.mp (okOr_eq_ok.mp hhashes)).2
    simp only [decide_eq_true_eq] at hfull
    simp only [List.length_zipIdx, List.length_zip]
    omega
  refine ⟨hremote, okOr_eq_ok.mp hprevious, not_not.mp hgeneration, ?_,
    2 + snapshots.length, ?_, by omega, confirmed, hconfirmed, hcut⟩
  · intro s hs
    obtain ⟨n, d, hn, hfetch, hlisted⟩ := hsnapshots s hs
    refine ⟨n, ?_, d, children, hfetch, hlisted, hsame.2.2.1⟩
    unfold maxRequests
    omega
  · unfold maxRequests
    omega

end Found

/-! ### Replacing buckets -/

section Replacing

theorem lookup_versionsOf {objects : BTreeMap String (ResourceObject V S T)}
    {name version : String} :
    (versionsOf objects)[name]? = some version ↔
      ∃ o, objects[name]? = some o ∧ o.metadata.resourceVersion = version := by
  rw [versionsOf, Std.ExtTreeMap.getElem?_map, Option.map_eq_some_iff]

variable [DecidableEq V] [DecidableEq S] [DecidableEq T] {k : ReplicaKind V S T}
  {originRoot : NodeId} {p p' : ReplicaPartition V S T} {syncedAt now : Timestamp}
  {versions : BTreeMap String String} {leaf : Fin 256} {listed : ResourceList V S T} {ns : String}

/-- A body that is held as listed is held after the repair of its bucket, and a repair leaves the
other buckets alone. -/
theorem replaceReplicas_keeps (hindexed : Indexed k p)
    (h : replaceReplicas k originRoot p listed syncedAt now (some leaf) = .ok p')
    (hlists : PartitionDigest.Lists k.kind.sha256 versions leaf listed.items)
    {name version : String} (hversion : versions[name]? = some version)
    (hheld : (versionsOf p.objects)[name]? = some version) :
    (versionsOf p'.objects)[name]? = some version := by
  obtain ⟨held, hheld, hheldVersion⟩ := lookup_versionsOf.mp hheld
  rw [lookup_versionsOf]
  obtain ⟨x, hx, hobject, -⟩ := replaceReplicas_lookup h hlists.nodup name
  rw [hobject, hx]
  by_cases hleaf : k.bucketOf name = leaf
  · rw [startAt_covered hindexed (by simpa using hleaf), hheld]
    obtain ⟨o, ho, hname⟩ := hlists.complete name version hversion hleaf
    have hfind : (listed.items.find? (·.metadata.name = name)).isSome = true := by
      rw [List.find?_isSome]
      exact ⟨o, ho, by simp [hname]⟩
    obtain ⟨o', ho'⟩ := Option.isSome_iff_exists.mp hfind
    obtain ⟨hmem', hname'⟩ := of_find? ho'
    have hlisted : o'.metadata.resourceVersion = version := by
      have hsound := hlists.sound o' hmem'
      rw [hname', hversion] at hsound
      exact (Option.some.inj hsound).symm
    rw [listedAt, ho', Option.map_some]
    cases hvalid : k.valid o'.stripped with
    | false =>
      rw [settle_invalid hvalid]
      exact ⟨held, rfl, hheldVersion⟩
    | true =>
      rw [settle_valid hvalid]
      unfold NameState.accept
      split
      · exact ⟨held, rfl, hheldVersion⟩
      · exact ⟨o'.stripped, rfl, hlisted⟩
  · have hfind : listed.items.find? (·.metadata.name = name) = none := by
      rw [List.find?_eq_none]
      intro o ho hname
      exact hleaf (of_decide_eq_true hname ▸ hlists.covered o ho)
    have hunaffected : affected p (some leaf) name = false := by
      rw [Bool.eq_false_iff]
      intro hcontains
      have hmem := (DigestIndex.Holds.mem_names hindexed).mp (List.contains_iff_mem.mp hcontains)
      exact hleaf hmem.2
    refine ⟨held, ?_, hheldVersion⟩
    rw [listedAt, hfind]
    simp [NameState.settle, NameState.finish, startAt, hheld, hunaffected]

/-- What replacing buckets by listings of these versions keeps of a partition. -/
structure Repairs (k : ReplicaKind V S T) (versions : BTreeMap String String)
    (p p' : ReplicaPartition V S T) : Prop where
  indexed : Indexed k p'
  short : Short (versionsOf p'.objects)
  cursor : p'.cursor = p.cursor
  kept : ∀ (name version : String), versions[name]? = some version →
    (versionsOf p.objects)[name]? = some version → (versionsOf p'.objects)[name]? = some version

theorem repairs_replaceReplicas (hindexed : Indexed k p) (hshort : Short (versionsOf p.objects))
    (hversions : Short versions)
    (h : replaceReplicas k originRoot p listed syncedAt now (some leaf) = .ok p')
    (hlists : PartitionDigest.Lists k.kind.sha256 versions leaf listed.items) :
    Repairs k versions p p' where
  indexed := tracks_replaceReplicas (tracks_digests k.kind) hindexed h hlists.nodup
  short name version hversion := by
    obtain ⟨body, hbody, rfl⟩ := lookup_versionsOf.mp hversion
    rcases replaceBucket_lookup hindexed h hlists.nodup hlists.covered hbody with
      hheld | ⟨o, ho, rfl, rfl, -⟩
    · exact hshort name _ (lookup_versionsOf.mpr ⟨body, hheld, rfl⟩)
    · exact hversions _ _ (hlists.sound o ho)
  cursor := cursor_replaceReplicas h
  kept _ _ hversion hheld := replaceReplicas_keeps hindexed h hlists hversion hheld

variable {k : RepairKind V S T}

theorem repairs_replaceBuckets {out : Except ResourceError Unit}
    {snapshots : List (Fin 256 × ResourceList V S T)} (hindexed : Indexed k.replicas p)
    (hshort : Short (versionsOf p.objects)) (hversions : Short versions)
    (hlists : ∀ s ∈ snapshots, PartitionDigest.Lists k.sha256 versions s.1 s.2.items)
    (h : replaceBuckets k originRoot ns syncedAt now p snapshots = (p', out)) :
    Repairs k.replicas versions p p' := by
  induction snapshots generalizing p with
  | nil =>
    cases h
    exact ⟨hindexed, hshort, rfl, fun _ _ _ hheld => hheld⟩
  | cons s snapshots ih =>
    rw [List.forall_mem_cons] at hlists
    rw [replaceBuckets] at h
    split at h
    · cases h
      exact ⟨hindexed, hshort, rfl, fun _ _ _ hheld => hheld⟩
    next p₁ hreplace =>
      have hone := repairs_replaceReplicas hindexed hshort hversions
        (replaceBucket_eq_ok hreplace).2 hlists.1
      have hrest := ih hone.indexed hone.short hlists.2 h
      exact ⟨hrest.indexed, hrest.short, hrest.cursor.trans hone.cursor,
        fun name version hversion hheld =>
          hrest.kept name version hversion (hone.kept name version hversion hheld)⟩

omit [DecidableEq V] [DecidableEq S] [DecidableEq T] in
theorem confirmDigestPosition_eq_ok {proof : PartitionDigest V S T} {previous : ReplicaCursor}
    (h : confirmDigestPosition k originRoot ns p proof previous = .ok p') :
    proof.origin = originRoot ∧ proof.ns = ns ∧ proof.generation = previous.generation ∧
      (replicaDigest k originRoot ns previous.generation p).root = proof.root ∧
      p' = { p with cursor := some ⟨proof.resourceVersion, proof.generation⟩ } := by
  unfold confirmDigestPosition confirmReplicaDigest at h
  dsimp only at h
  split_ifs at h with hidentity hset
  cases h
  simp only [not_or, not_not] at hidentity hset
  exact ⟨hidentity.1, hidentity.2.2.1, hidentity.2.2.2, hset.1, rfl⟩

/-- **What a repair can do**: nothing, replace buckets, or replace buckets and move the cursor. -/
theorem reconcileDigest_cases {fetch : Nat → DigestQuery → Except String (PartitionDigest V S T)}
    {peer : NodeId} {result : Except String Bool}
    (h : reconcileDigest k fetch originRoot ns peer syncedAt now p = (p', result)) :
    (p' = p ∧ result ≠ .ok true) ∨
    ∃ r p₁ out, Found k fetch p r ∧
      replaceBuckets k originRoot ns syncedAt now p r.snapshots = (p₁, out) ∧
      ((p' = p₁ ∧ result ≠ .ok true) ∨
        (confirmDigestPosition k originRoot ns p₁ r.remote r.previous = .ok p' ∧
          result = .ok true)) := by
  unfold reconcileDigest at h
  cases hfind : findRepair k fetch originRoot ns peer p with
  | error message =>
    rw [hfind] at h
    cases h
    exact .inl ⟨rfl, by simp⟩
  | ok found =>
    rw [hfind] at h
    cases found with
    | none =>
      cases h
      exact .inl ⟨rfl, by simp⟩
    | some r =>
      refine .inr ⟨r, _, _, found_of_findRepair hfind, rfl, ?_⟩
      dsimp only at h
      generalize replaceBuckets k originRoot ns syncedAt now p r.snapshots = replaced at h ⊢
      obtain ⟨p₁, out⟩ := replaced
      cases out with
      | error e =>
        cases h
        exact .inl ⟨rfl, by simp⟩
      | ok _ =>
        dsimp only at h ⊢
        cases hconfirm : confirmDigestPosition k originRoot ns p₁ r.remote r.previous with
        | error e =>
          rw [hconfirm] at h
          cases h
          exact .inl ⟨rfl, by simp⟩
        | ok p₂ =>
          rw [hconfirm] at h
          cases h
          exact .inr ⟨rfl, rfl⟩

end Replacing

/-! ### The result -/

section Result

/-- The bytes hashed in the course of a repair: by the states of the authority that answer, and
for the replica that the repair leaves. -/
def hashedInputs (k : RepairKind V S T) (localRoot : NodeId) (ns : String)
    (authority : Nat → Authority k) (p' : ReplicaPartition V S T) : Set (List UInt8) :=
  { bytes | (∃ n < maxRequests, bytes ∈ (authority n).store.digest.inputs k.sha256 k.paths localRoot
      ns (authority n).generation) ∨
    bytes ∈ p'.digest.inputs k.sha256 k.paths localRoot ns (authority 0).generation }

variable {k : RepairKind V S T} {localRoot : NodeId} {ns : String} {authority : Nat → Authority k}
  {lost : Nat → Option String} {p' : ReplicaPartition V S T} {d : PartitionDigest V S T}
  {query : DigestQuery} {request : Nat}

theorem digestRaw_of_answer
    (h : Authority.answer localRoot ns authority lost request query = .ok d) :
    (authority request).digestRaw localRoot ns query = .ok d := by
  unfold Authority.answer at h
  split at h
  · cases h
  · obtain ⟨_, -, h⟩ := bind_eq_ok h
    exact mapError_eq_ok h

theorem lost_of_answer (h : Authority.answer localRoot ns authority lost request query = .ok d) :
    lost request = none := by
  unfold Authority.answer at h
  split at h
  · cases h
  · assumption

/-- Two states of the authority with one root and one generation hold the same versions. -/
theorem versions_eq_of_root_eq
    (hinj : Set.InjOn k.sha256 (hashedInputs k localRoot ns authority p')) {m n : Nat}
    (hm : m < maxRequests) (hn : n < maxRequests)
    (hgeneration : (authority m).generation = (authority n).generation)
    (hroot : (authority m).root localRoot ns = (authority n).root localRoot ns) :
    (authority m).versions = (authority n).versions := by
  have hinputs : (authority m).store.digest.inputs k.sha256 k.paths localRoot ns
      (authority n).generation ⊆ hashedInputs k localRoot ns authority p' := by
    intro bytes hbytes
    exact .inl ⟨m, hm, hgeneration ▸ hbytes⟩
  refine DigestIndex.Holds.versions_eq_of_root_eq (authority m).digests (authority n).digests
    (authority m).short (authority n).short hinj hinputs (fun _ h => .inl ⟨n, hn, h⟩) ?_
  rw [← hgeneration]
  unfold Authority.root Authority.digest at hroot
  rw [← hgeneration] at hroot
  exact hroot

/-- Every bucket of a repair lists the versions of its cut. -/
theorem Found.lists {p : ReplicaPartition V S T} {r : Repair V S T}
    (hinj : Set.InjOn k.sha256 (hashedInputs k localRoot ns authority p'))
    (hfound : Found k (Authority.answer localRoot ns authority lost) p r) :
    ∀ s ∈ r.snapshots, PartitionDigest.Lists k.sha256 (authority 0).versions s.1 s.2.items := by
  have hremote := answers_root (digestRaw_of_answer hfound.remote)
  intro s hs
  obtain ⟨n, hn, d, children, hfetch, hlisted, hgeneration⟩ := hfound.snapshots s hs
  obtain ⟨hroot, hsame, hlists⟩ := lists_of_snapshot (digestRaw_of_answer hfetch) hlisted
  have hversions : (authority n).versions = (authority 0).versions := by
    refine versions_eq_of_root_eq hinj hn (by decide) ?_ ?_
    · rw [hsame, hgeneration, hremote.generation]
    · rw [hroot, hremote.root]
  exact hversions ▸ hlists

variable [DecidableEq V] [DecidableEq S] [DecidableEq T]

/-- **A repair that reports success has made the replica's versions those of the authority**, as
they were at the first request and still were at a later one, and has moved the cursor there.
Otherwise the cursor stays.  In either case no body is lost that is held in the version of the cut.

Every request may meet another state of the authority, or fail. -/
theorem reconcileDigest_proven (k : RepairKind V S T) (localRoot : NodeId) (ns : String)
    (authority : Nat → Authority k) (lost : Nat → Option String) (originRoot : NodeId)
    (writerNs : String) (peer : NodeId) (syncedAt now : Timestamp) (p p' : ReplicaPartition V S T)
    (result : Except String Bool) (hp : Indexed k.replicas p)
    (hshort : Short (versionsOf p.objects))
    (hrun : reconcileDigest k (Authority.answer localRoot ns authority lost) originRoot
      writerNs peer syncedAt now p = (p', result))
    (hinj : Set.InjOn k.sha256 (hashedInputs k localRoot ns authority p')) :
    (result = .ok true →
      versionsOf p'.objects = (authority 0).versions ∧
      (∃ n, 2 ≤ n ∧ n < maxRequests ∧ lost n = none ∧
        versionsOf p'.objects = (authority n).versions) ∧
      p'.cursor = some
        ⟨toString (authority 0).store.currentVersion, (authority 0).generation⟩) ∧
    (result ≠ .ok true → p'.cursor = p.cursor) ∧
    ∀ (name version : String), (authority 0).versions[name]? = some version →
      (versionsOf p.objects)[name]? = some version →
      (versionsOf p'.objects)[name]? = some version := by
  rcases reconcileDigest_cases hrun with ⟨rfl, hresult⟩ | ⟨r, p₁, out, hfound, hreplaced, hend⟩
  · exact ⟨fun h => absurd h hresult, fun _ => rfl, fun _ _ _ hheld => hheld⟩
  have hrepairs := repairs_replaceBuckets hp hshort (authority 0).short (hfound.lists hinj)
    hreplaced
  rcases hend with ⟨rfl, hresult⟩ | ⟨hconfirm, hresult⟩
  · exact ⟨fun h => absurd h hresult, fun _ => hrepairs.cursor, hrepairs.kept⟩
  obtain ⟨horigin, hns, hgeneration, hroot, rfl⟩ := confirmDigestPosition_eq_ok hconfirm
  have hremote := answers_root (digestRaw_of_answer hfound.remote)
  -- The replica's root is the one of the cut, and the identity it covers is the authority's.
  have hversions : versionsOf p₁.objects = (authority 0).versions := by
    obtain rfl : localRoot = originRoot := hremote.origin.symm.trans horigin
    obtain rfl : ns = writerNs := hremote.partition.symm.trans hns
    rw [← hgeneration, hremote.root, hremote.generation] at hroot
    exact DigestIndex.Holds.versions_eq_of_root_eq hrepairs.indexed (authority 0).digests
      hrepairs.short (authority 0).short hinj (fun _ h => .inr h)
      (fun _ h => .inl ⟨0, by decide, h⟩) hroot
  obtain ⟨n, hn, htwo, d, hfetch, hdroot, hdgeneration⟩ := hfound.confirmed
  have hconfirmed := answers_children (digestRaw_of_answer hfetch)
  have hlater : (authority n).versions = (authority 0).versions := by
    refine versions_eq_of_root_eq hinj hn (by decide) ?_ ?_
    · rw [← hconfirmed.generation, hdgeneration, hremote.generation]
    · rw [← hconfirmed.root, hdroot, hremote.root]
  refine ⟨fun _ => ⟨hversions, ⟨n, htwo, hn, ?_, ?_⟩, ?_⟩, fun h => absurd hresult h, hrepairs.kept⟩
  · exact lost_of_answer hfetch
  · rw [hlater]
    exact hversions
  · rw [hremote.resourceVersion, hremote.generation]

end Result

/-! ### An authority at rest -/

section Quiet

variable {k : RepairKind V S T} {localRoot : NodeId} {ns : String} {a : Authority k}
  {p p₁ : ReplicaPartition V S T} {previous : ReplicaCursor}
  {snapshots : List (Fin 256 × ResourceList V S T)}

/-- What every request gets from an authority at rest. -/
def Authority.atRest (localRoot : NodeId) (ns : String) (a : Authority k) (request : Nat)
    (query : DigestQuery) : Except String (PartitionDigest V S T) :=
  Authority.answer localRoot ns (fun _ => a) (fun _ => none) request query

theorem validateTree_digest : (a.digest localRoot ns).validateTree k.sha256 k.paths = .ok () := by
  exact refuseIf_eq_ok.mpr
    (by simp [Authority.digest, RepairKind.partitionDigest, PartitionDigest.new])

/-- A replica with the index of the authority confirms its position. -/
theorem confirmDigestPosition_atRest (hdigest : p₁.digest = a.store.digest)
    (hcursor : p₁.cursor = some previous) (hgeneration : previous.generation = a.generation) :
    confirmDigestPosition k localRoot ns p₁ { a.digest localRoot ns with children := none }
      previous =
      .ok { p₁ with cursor := some ⟨toString a.store.currentVersion, a.generation⟩ } := by
  have hidentity : ¬ ((a.digest localRoot ns).origin ≠ localRoot
      ∨ (a.digest localRoot ns).kind ≠ k.paths.kind ∨ (a.digest localRoot ns).ns ≠ ns
      ∨ (a.digest localRoot ns).generation ≠ previous.generation) := by
    simp [Authority.digest, RepairKind.partitionDigest, PartitionDigest.new, hgeneration]
  have hset : ¬ ((replicaDigest k localRoot ns previous.generation p₁).root ≠
      (a.digest localRoot ns).root ∨ p₁.cursor ≠ some previous) := by
    simp [replicaDigest, hdigest, hgeneration, hcursor, Authority.digest,
      RepairKind.partitionDigest, PartitionDigest.new]
  exact (if_neg hidentity).trans (if_neg hset)

/-- Buckets with equal hashes are not fetched. -/
theorem fetchBuckets_append {fetch : Nat → DigestQuery → Except String (PartitionDigest V S T)}
    {children : PartitionDigest V S T} {root : String} {request : Nat}
    {entries same : List ((String × String) × Nat)} (hsame : ∀ e ∈ same, e.1.1 = e.1.2) :
    fetchBuckets k fetch children root request (entries ++ same) =
      fetchBuckets k fetch children root request entries := by
  induction entries generalizing request with
  | nil =>
    induction same with
    | nil => rfl
    | cons e same ih =>
      rw [List.forall_mem_cons] at hsame
      exact (if_pos hsame.1).trans (ih hsame.2)
  | cons e entries ih =>
    rw [List.cons_append, fetchBuckets, fetchBuckets, ih, ih]

variable (henabled : ensureReplicationEnabled k.replicas = .ok ())

include henabled

theorem atRest_eq (request : Nat) (query : DigestQuery) :
    a.atRest localRoot ns request query =
      (a.digestRaw localRoot ns query).mapError ResourceError.render := by
  unfold Authority.atRest Authority.answer
  rw [henabled]
  rfl

theorem atRest_children (request : Nat) :
    a.atRest localRoot ns request (.children (a.root localRoot ns)) =
      .ok (a.digest localRoot ns) := by
  have hselect : (a.digest localRoot ns).select (.children (a.root localRoot ns)) =
      .ok (a.digest localRoot ns) := if_neg (not_not.mpr rfl)
  rw [atRest_eq henabled, Authority.digestRaw, hselect]
  rfl

variable (hns : ns = replicationNamespace) (hprevious : p.cursor = some previous)
  (hgeneration : previous.generation = a.generation)
  (hroot : (replicaDigest k localRoot ns previous.generation p).root ≠
    a.root localRoot ns)
  (hsnapshots : fetchBuckets k (a.atRest localRoot ns)
    (a.digest localRoot ns) (a.root localRoot ns) 2
    ((a.store.digest.hashes k.sha256).zip (p.digest.hashes k.sha256)).zipIdx = .ok snapshots)

include hns hprevious hgeneration hroot hsnapshots

/-- Against an authority at rest a repair is found once its buckets are. -/
theorem findRepair_atRest :
    findRepair k (a.atRest localRoot ns) localRoot ns localRoot p =
      .ok (some ⟨{ a.digest localRoot ns with children := none }, previous,
        snapshots⟩) := by
  have hremote : a.atRest localRoot ns 0 .root =
      .ok { a.digest localRoot ns with children := none } := atRest_eq henabled 0 _
  have hlength : (a.store.digest.hashes k.sha256).length = 256 := List.length_ofFn
  have hchildren : (a.digest localRoot ns).children.filter (·.length = 256) =
      some (a.store.digest.hashes k.sha256) :=
    Option.filter_eq_some_iff.mpr ⟨rfl, decide_eq_true hlength⟩
  have htree : ∀ request, a.atRest localRoot ns request
      (.children (a.digest localRoot ns).root) =
        .ok (a.digest localRoot ns) := atRest_children henabled
  refine (bind_ok hremote).trans ?_
  refine (refuseIf_bind ?_).trans ?_
  · simp [Authority.digest, RepairKind.partitionDigest, PartitionDigest.new, hns]
  refine (bind_ok (by rw [henabled]; rfl)).trans ?_
  refine (bind_ok (okOr_eq_ok.mpr hprevious)).trans ?_
  refine (refuseIf_bind (not_not.mpr hgeneration)).trans ?_
  refine (if_neg hroot).trans ?_
  refine (bind_ok (htree 1)).trans ?_
  refine (refuseIf_bind (by simp)).trans ?_
  refine (bind_ok (by rw [validateTree_digest]; rfl)).trans ?_
  refine (bind_ok (okOr_eq_ok.mpr hchildren)).trans ?_
  refine (bind_ok (okOr_eq_ok.mpr rfl)).trans ?_
  refine (bind_ok hsnapshots).trans ?_
  refine (bind_ok (htree _)).trans ?_
  exact refuseIf_bind (by simp)

/-- A repair against an authority at rest succeeds once its buckets make the indexes equal. -/
theorem reconcileDigest_atRest [DecidableEq V] [DecidableEq S] [DecidableEq T]
    {syncedAt now : Timestamp}
    (hreplaced : replaceBuckets k localRoot ns syncedAt now p snapshots =
      (p₁, .ok ())) (hdigest : p₁.digest = a.store.digest) (hcursor : p₁.cursor = some previous) :
    reconcileDigest k (a.atRest localRoot ns) localRoot ns
      localRoot syncedAt now p =
        ({ p₁ with cursor := some ⟨toString a.store.currentVersion, a.generation⟩ }, .ok true) := by
  unfold reconcileDigest
  rw [findRepair_atRest henabled hns hprevious hgeneration hroot hsnapshots]
  dsimp only
  rw [hreplaced]
  dsimp only
  rw [confirmDigestPosition_atRest hdigest hcursor hgeneration]

end Quiet

/-!
In the fixed input the hash reads two bytes: in a leaf the one of its version, in a root the last
of the first child.  It stands in for SHA-256 and is injective only on the three inputs of this run
(`injOn_sync`).  Every name is in the first bucket.
-/

def offsetHash : Sha256 := fun bytes =>
  Vector.ofFn fun i => if i = 31 then bytes[48]?.getD 0 + bytes[178]?.getD 0 else 0

def eventRepairs : RepairKind Unit EventTree Unit where
  replicas := { eventReplicas with kind := { eventKind with sha256 := offsetHash } }
  group := "flotilla.work"
  version := "v1"
  decode o := .ok (o.spec, o.status)

theorem short_single {name version : String} (hname : Framable (utf8 name))
    (hversion : Framable (utf8 version)) :
    Short ((∅ : BTreeMap String String).insert name version) := by
  refine BTreeMap.forall_insert ⟨hname, hversion⟩ fun name' version' _ hlookup => ?_
  simp at hlookup

def syncCut : Authority eventRepairs where
  generation := none
  store := {
    objects := (∅ : BTreeMap String _).insert "sync" (eventObject "sync" 2 "listed")
    digest := ({} : DigestIndex).set offsetHash "sync" (some "2")
    nextVersion := 3 }
  keyed := by
    refine BTreeMap.forall_insert ⟨rfl, by decide +kernel⟩ fun name o _ ho => ?_
    simp at ho
  digests := (digests_empty eventRepairs.replicas.kind).put (eventObject "sync" 2 "listed")
  short := by
    rw [versionsOf, BTreeMap.map_insert, BTreeMap.map_empty]
    exact short_single (by unfold Framable; decide +kernel) (by unfold Framable; decide +kernel)

/-- A replica that holds an older `sync`. -/
def staleReplica : ReplicaPartition Unit EventTree Unit :=
  { ({} : ReplicaPartition Unit EventTree Unit).put eventRepairs.replicas "iad" .added
      (eventObject "sync" 1 "held") 10 with
    cursor := some ⟨"1", none⟩ }

/-- The hashes of an index with one entry: the first bucket's and 255 times the empty one's. -/
theorem hashes_single (version : String) :
    (({} : DigestIndex).set offsetHash "sync" (some version)).hashes offsetHash =
      hashEntries offsetHash ((∅ : BTreeMap String String).insert "sync" version) ::
        List.replicate 255 (hashEntries offsetHash ∅) := by
  have hbucket : digestBucket offsetHash "sync" = 0 := by decide +kernel
  unfold DigestIndex.hashes
  rw [List.ofFn_succ, ← List.ofFn_const]
  simp only [DigestIndex.set, hbucket, Function.update_self]
  refine congrArg₂ List.cons rfl (congrArg List.ofFn (funext fun i => ?_))
  rw [Function.update_of_ne (Fin.succ_ne_zero i)]

def listedSync : ResourceList Unit EventTree Unit where
  items := [eventObject "sync" 2 "listed"]
  resourceVersion := "2"
  generation := none

/-- One bucket differs. -/
theorem fetchBuckets_sync :
    fetchBuckets eventRepairs (syncCut.atRest "iad" replicationNamespace)
      (syncCut.digest "iad" replicationNamespace) (syncCut.root "iad" replicationNamespace) 2
      ((syncCut.store.digest.hashes eventRepairs.sha256).zip
        (staleReplica.digest.hashes eventRepairs.sha256)).zipIdx = .ok [(0, listedSync)] := by
  have hcut : syncCut.store.digest.hashes eventRepairs.sha256 = _ := hashes_single "2"
  have hstale : staleReplica.digest.hashes eventRepairs.sha256 = _ := hashes_single "1"
  obtain ⟨_, hfirst, rfl⟩ := exists_ok (f := id) (b := [(0, listedSync)])
    (x := fetchBuckets eventRepairs (syncCut.atRest "iad" replicationNamespace)
      (syncCut.digest "iad" replicationNamespace) (syncCut.root "iad" replicationNamespace) 2
      [((hashEntries offsetHash ((∅ : BTreeMap String String).insert "sync" "2"),
        hashEntries offsetHash ((∅ : BTreeMap String String).insert "sync" "1")), 0)])
    (by decide +kernel)
  rw [hcut, hstale, List.zip_cons_cons, List.zipIdx_cons, ← List.singleton_append,
    fetchBuckets_append]
  · exact hfirst
  · intro e he
    have hpair : e.1 ∈ (List.replicate 255 (hashEntries offsetHash ∅)).zip
        (List.replicate 255 (hashEntries offsetHash ∅)) := List.fst_mem_of_mem_zipIdx he
    obtain ⟨hleft, hright⟩ := List.of_mem_zip hpair
    exact (List.eq_of_mem_replicate hleft).trans (List.eq_of_mem_replicate hright).symm

theorem indexed_staleReplica : Indexed eventRepairs.replicas staleReplica :=
  (digests_empty eventRepairs.replicas.kind).put (eventObject "sync" 1 "held")

theorem short_staleReplica : Short (versionsOf staleReplica.objects) := by
  exact short_single (by unfold Framable; decide +kernel) (by unfold Framable; decide +kernel)

/-- Replacing the one bucket makes the index the authority's. -/
theorem replaceBuckets_sync : ∃ p₁,
    replaceBuckets eventRepairs "iad" replicationNamespace 20 100 staleReplica [(0, listedSync)] =
      (p₁, .ok ()) ∧
    p₁.digest = syncCut.store.digest ∧ p₁.cursor = some ⟨"1", none⟩ := by
  obtain ⟨p₁, hreplace, hversions⟩ := exists_ok (f := fun p => versionsOf p.objects)
    (x := replaceBucket eventRepairs.replicas "iad" replicationNamespace staleReplica 0
      listedSync 20 100)
    (b := syncCut.versions) (by decide +kernel)
  have hraw := (replaceBucket_eq_ok hreplace).2
  have hindexed : Indexed eventRepairs.replicas p₁ := tracks_replaceReplicas
    (tracks_digests eventRepairs.replicas.kind) indexed_staleReplica hraw (List.nodup_singleton _)
  refine ⟨p₁, ?_, ?_, cursor_replaceReplicas hraw⟩
  · rw [replaceBuckets, hreplace]
    rfl
  · have hholds : p₁.digest.Holds offsetHash (versionsOf p₁.objects) := hindexed
    rw [hversions] at hholds
    exact hholds.unique syncCut.digests

/-- The root and the two leaves of the cut have three hashes. -/
theorem injOn_sync : Set.InjOn eventRepairs.sha256 (syncCut.store.digest.inputs eventRepairs.sha256
    eventRepairs.paths "iad" replicationNamespace syncCut.generation) := by
  have hbucket : digestBucket offsetHash "sync" = 0 := by decide +kernel
  have hnodup : ([rootBytes eventRepairs.paths "iad" replicationNamespace syncCut.generation
      (syncCut.store.digest.hashes eventRepairs.sha256), leafBytes ∅,
      leafBytes ((∅ : BTreeMap String String).insert "sync" "2")].map
        eventRepairs.sha256).Nodup := by
    decide +kernel
  have hleaf : ∀ bucket, leafBytes (syncCut.store.digest.hashed bucket) ∈
      [leafBytes ∅, leafBytes ((∅ : BTreeMap String String).insert "sync" "2")] := by
    intro bucket
    simp only [syncCut, DigestIndex.set, hbucket, Function.update_self]
    by_cases hzero : bucket = 0
    · rw [hzero, Function.update_self]
      exact List.mem_cons_of_mem _ List.mem_cons_self
    · rw [Function.update_of_ne hzero]
      exact List.mem_cons_self
  refine Set.InjOn.mono (fun bytes hbytes => ?_) fun x hx y hy =>
    List.inj_on_of_nodup_map hnodup hx hy
  rcases hbytes with hroot | ⟨bucket, rfl⟩
  · exact List.mem_cons.mpr (.inl hroot)
  · exact List.mem_cons_of_mem _ (hleaf bucket)

theorem reconcileDigest_proven_sync :
    ∃ p', reconcileDigest eventRepairs
        (Authority.answer "iad" replicationNamespace (fun _ => syncCut) fun _ => none) "iad"
        replicationNamespace "iad" 20 100 staleReplica = (p', .ok true) ∧
      versionsOf p'.objects = syncCut.versions ∧ p'.cursor = some ⟨"2", none⟩ := by
  have hroot : (replicaDigest eventRepairs "iad" replicationNamespace none staleReplica).root ≠
      syncCut.root "iad" replicationNamespace := by decide +kernel
  obtain ⟨p₁, hreplaced, hdigest, hcursor⟩ := replaceBuckets_sync
  have hprevious : staleReplica.cursor = some ⟨"1", none⟩ := rfl
  have hrun := reconcileDigest_atRest rfl rfl hprevious rfl hroot fetchBuckets_sync
    hreplaced hdigest hcursor
  have hinj : Set.InjOn eventRepairs.sha256 (hashedInputs eventRepairs "iad" replicationNamespace
      (fun _ => syncCut)
      { p₁ with cursor := some ⟨toString syncCut.store.currentVersion, none⟩ }) := by
    refine injOn_sync.mono ?_
    intro bytes hbytes
    rcases hbytes with ⟨_, _, hbytes⟩ | hbytes
    · exact hbytes
    · rw [← hdigest]
      exact hbytes
  obtain ⟨hversions, -, hposition⟩ :=
    (reconcileDigest_proven eventRepairs "iad" replicationNamespace
    (fun _ => syncCut) (fun _ => none) "iad" replicationNamespace "iad" 20 100 staleReplica _ _
    indexed_staleReplica short_staleReplica hrun hinj).1 rfl
  exact ⟨_, hrun, hversions, hposition⟩

end Flotilla.Replica
