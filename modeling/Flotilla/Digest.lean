import Flotilla.Lib.BTreeMap
import Flotilla.Lib.Bytes
import Flotilla.Lib.Loop
import Flotilla.Resource

/-!
# The key and version index

A store keeps, beside its objects, the version of every name in one of 256
buckets, with a cached hash for each bucket.  The first byte of the name's hash
selects the bucket.

`Holds` : the index lists exactly the given names with their versions, each in
its own bucket, and every cached hash is that of its bucket.

A `PartitionDigest` answers for a whole index: a root over the identity of the
partition and the 256 hashes, and on request the hashes or the bodies of one
bucket.  The hashed bytes are framed by their lengths, so where the hash function
does not collide on them two equal roots mean equal versions
(`Holds.versions_eq_of_root_eq`).
-/

namespace Flotilla

open Lib
open Std (ExtTreeMap)

/-- The hash function that the program is linked with. -/
abbrev Sha256 := List UInt8 → Vector UInt8 32

def digestBucket (sha256 : Sha256) (name : String) : Fin 256 := (sha256 (utf8 name))[0].toFin

/-- What is hashed of a bucket: its names in order, each with its version. -/
def leafBytes (entries : BTreeMap String String) : List UInt8 :=
  utf8 "flotilla-key-version-leaf-v1" ++
    (entries.toList.flatMap fun e => [utf8 e.1, utf8 e.2]).flatMap frame

def hashEntries (sha256 : Sha256) (entries : BTreeMap String String) : String :=
  hex (sha256 (leafBytes entries)).toList

structure DigestIndex where
  entries : Fin 256 → BTreeMap String String := fun _ => ∅
  -- The cached hash of a bucket, as the entries it was taken of.
  hashed : Fin 256 → BTreeMap String String := fun _ => ∅

namespace DigestIndex

def setEntry (entries : BTreeMap String String) (name : String) :
    Option String → BTreeMap String String
  | some version => entries.insert name version
  | none => entries.erase name

def set (sha256 : Sha256) (d : DigestIndex) (name : String) (version : Option String) :
    DigestIndex :=
  let bucket := digestBucket sha256 name
  let entries := Function.update d.entries bucket (setEntry (d.entries bucket) name version)
  { entries, hashed := Function.update d.hashed bucket (entries bucket) }

def hashes (sha256 : Sha256) (d : DigestIndex) : List String :=
  List.ofFn fun bucket => hashEntries sha256 (d.hashed bucket)

def names (d : DigestIndex) (bucket : Fin 256) : List String := (d.entries bucket).keys

/-- The index lists exactly these names and versions, with the hashes of its buckets. -/
structure Holds (sha256 : Sha256) (d : DigestIndex) (versions : BTreeMap String String) : Prop where
  entries : ∀ bucket, d.entries bucket =
    versions.filter fun name _ => digestBucket sha256 name = bucket
  hashed : d.hashed = d.entries

variable {sha256 : Sha256} {d : DigestIndex} {versions : BTreeMap String String}

theorem holds_empty (sha256 : Sha256) : Holds sha256 {} ∅ where
  entries bucket := by
    apply ExtTreeMap.ext_getElem?
    intro name
    simp
  hashed := rfl

theorem Holds.mem_names (h : Holds sha256 d versions) {bucket : Fin 256} {name : String} :
    name ∈ d.names bucket ↔ name ∈ versions ∧ digestBucket sha256 name = bucket := by
  rw [names, ExtTreeMap.mem_keys, h.entries, ExtTreeMap.mem_filter]
  simp

theorem Holds.unique {d' : DigestIndex} (h : Holds sha256 d versions)
    (h' : Holds sha256 d' versions) : d = d' := by
  have hentries : d.entries = d'.entries := funext fun bucket =>
    (h.entries bucket).trans (h'.entries bucket).symm
  have hhashed : d.hashed = d'.hashed := by rw [h.hashed, h'.hashed, hentries]
  cases d
  cases hentries
  cases hhashed
  rfl

theorem lookup_setEntry (entries : BTreeMap String String) (name name' : String)
    (version : Option String) :
    (setEntry entries name version)[name']? =
      if name = name' then version else entries[name']? := by
  cases version <;>
    simp only [setEntry, ExtTreeMap.getElem?_erase, ExtTreeMap.getElem?_insert,
      compare_eq_iff_eq]

/-- An index that has the versions right and hashes its buckets keeps both. -/
theorem Holds.set (h : Holds sha256 d versions) (name : String) (version : Option String) :
    Holds sha256 (d.set sha256 name version) (setEntry versions name version) where
  entries bucket := by
    apply ExtTreeMap.ext_getElem?
    intro name'
    have hentries := congrArg (·[name']?) (h.entries bucket)
    simp only [ExtTreeMap.getElem?_filter'] at hentries
    rw [ExtTreeMap.getElem?_filter', lookup_setEntry]
    by_cases hbucket : bucket = digestBucket sha256 name
    · subst hbucket
      simp only [DigestIndex.set, Function.update_self, lookup_setEntry, hentries]
      by_cases hname : name = name'
      · subst hname
        cases version <;> simp [Option.filter]
      · rw [if_neg hname, if_neg hname]
    · simp only [DigestIndex.set, Function.update_of_ne hbucket, hentries]
      by_cases hname : name = name'
      · subst hname
        simp [Ne.symm hbucket]
      · rw [if_neg hname]
  hashed := by
    simp only [DigestIndex.set, h.hashed]
    rw [Function.update_self]

/-- **After any settings the index lists the current versions**, each in its bucket, and no hash it
keeps is stale. -/
theorem holds_sets (sha256 : Sha256) (settings : List (String × Option String)) :
    Holds sha256 (settings.foldl (fun d s => d.set sha256 s.1 s.2) {})
      (settings.foldl (fun versions s => setEntry versions s.1 s.2) ∅) :=
  List.foldl_rel (holds_empty sha256) fun s _ _ _ h => h.set s.1 s.2

end DigestIndex

/-! ### Answers for a partition -/

structure ApiPaths where
  group : String
  version : String
  kind : String

inductive DigestQuery where
  | root
  | children (expectedRoot : String)
  | snapshot (expectedRoot : String) (bucket : Fin 256)

structure PartitionDigest (V S T : Type) where
  origin : NodeId
  kind : String
  ns : String
  generation : Option String
  resourceVersion : String
  root : String
  children : Option (List String) := none
  bucket : Option (Fin 256) := none
  items : Option (List (ResourceObject V S T)) := none

/-- The identity of a partition; an absent generation is not an empty one. -/
def identityBytes (paths : ApiPaths) (origin : NodeId) (ns : String) (generation : Option String) :
    List UInt8 :=
  utf8 "flotilla-partition-root-v1" ++
    [origin, paths.group, paths.version, paths.kind, ns].flatMap (fun text => frame (utf8 text)) ++
    (if generation.isSome then 1 else 0) :: frame (utf8 (generation.getD ""))

def rootBytes (paths : ApiPaths) (origin : NodeId) (ns : String) (generation : Option String)
    (hashes : List String) : List UInt8 :=
  identityBytes paths origin ns generation ++ numbered (hashes.map utf8) 0

namespace PartitionDigest

variable {V S T : Type}

def new (sha256 : Sha256) (paths : ApiPaths) (origin : NodeId) (ns : String)
    (generation : Option String) (resourceVersion : String) (hashes : List String) :
    PartitionDigest V S T where
  origin
  kind := paths.kind
  ns
  generation
  resourceVersion
  root := hex (sha256 (rootBytes paths origin ns generation hashes)).toList
  children := some hashes

def select (d : PartitionDigest V S T) :
    DigestQuery → Except ResourceError (PartitionDigest V S T)
  | .root => .ok { d with children := none }
  | .children expectedRoot =>
    if expectedRoot ≠ d.root then
      .error (.conflict "digest" "partition changed during digest drill-down")
    else .ok d
  | .snapshot expectedRoot _ =>
    if expectedRoot ≠ d.root then
      .error (.conflict "digest" "partition changed during digest drill-down")
    else .ok { d with children := none }

def validateTree (sha256 : Sha256) (paths : ApiPaths) (d : PartitionDigest V S T) :
    Except ResourceError Unit := do
  let hashes ← okOr (d.children.filter (·.length = 256)) (.invalid "incomplete digest tree")
  let computed : PartitionDigest V S T :=
    new sha256 paths d.origin d.ns d.generation d.resourceVersion hashes
  refuseIf (computed.root ≠ d.root ∨ d.kind ≠ paths.kind) (.invalid "invalid digest hierarchy")

/-- `from_k8s_object`: the typed spec and status of a tree, under its metadata. -/
def fromK8sObject (decode : ResourceObject V S T → Except ResourceError (S × Option T))
    (o : ResourceObject V S T) : Except ResourceError (ResourceObject V S T) := do
  let (spec, status) ← decode o
  return { o.stripped with spec, status }

/-- The loop over the items of a snapshot. -/
def snapshotItems (sha256 : Sha256)
    (decode : ResourceObject V S T → Except ResourceError (S × Option T)) (ns : String)
    (bucket : Fin 256) (entries : BTreeMap String String) :
    List (ResourceObject V S T) →
      Except ResourceError (BTreeMap String String × List (ResourceObject V S T))
  | [] => return (entries, [])
  | value :: rest => do
    let object ← fromK8sObject decode value
    refuseIf (object.metadata.ns ≠ ns ∨ digestBucket sha256 object.metadata.name ≠ bucket
      ∨ entries.contains object.metadata.name) (.invalid "digest snapshot contains invalid keys")
    let entries := entries.insert object.metadata.name object.metadata.resourceVersion
    let (entries, items) ← snapshotItems sha256 decode ns bucket entries rest
    return (entries, object :: items)

/-- A complete bucket must hash to the leaf of the hierarchy. -/
def snapshot (sha256 : Sha256) (paths : ApiPaths)
    (decode : ResourceObject V S T → Except ResourceError (S × Option T))
    (d expected : PartitionDigest V S T) (bucket : Fin 256) :
    Except ResourceError (ResourceList V S T) := do
  refuseIf (d.origin ≠ expected.origin ∨ d.kind ≠ paths.kind ∨ d.ns ≠ expected.ns
    ∨ d.generation ≠ expected.generation ∨ d.root ≠ expected.root ∨ d.bucket ≠ some bucket)
    (.invalid "digest snapshot identity mismatch")
  let values ← okOr d.items (.invalid "incomplete digest snapshot")
  let (entries, items) ← snapshotItems sha256 decode d.ns bucket ∅ values
  let hash ← okOr (expected.children.bind (·[bucket.val]?)) (.invalid "incomplete digest tree")
  refuseIf (hashEntries sha256 entries ≠ hash) (.invalid "incomplete digest bucket")
  return { items, generation := d.generation, resourceVersion := d.resourceVersion }

theorem fromK8sObject_eq_ok {decode : ResourceObject V S T → Except ResourceError (S × Option T)}
    {o typed : ResourceObject V S T} (h : fromK8sObject decode o = .ok typed) :
    typed.metadata = o.stripped.metadata := by
  obtain ⟨_, -, h⟩ := bind_eq_ok h
  cases h
  rfl

/-- A listing of exactly these versions of a bucket, each once. -/
structure Lists (sha256 : Sha256) (versions : BTreeMap String String) (bucket : Fin 256)
    (items : List (ResourceObject V S T)) : Prop where
  nodup : (items.map (·.metadata.name)).Nodup
  covered : ∀ o ∈ items, digestBucket sha256 o.metadata.name = bucket
  sound : ∀ o ∈ items, versions[o.metadata.name]? = some o.metadata.resourceVersion
  complete : ∀ (name version : String), versions[name]? = some version →
    digestBucket sha256 name = bucket → ∃ o ∈ items, o.metadata.name = name

section Snapshot

variable {sha256 : Sha256} {decode : ResourceObject V S T → Except ResourceError (S × Option T)}
  {ns : String} {bucket : Fin 256}

theorem snapshotItems_eq_ok {values items : List (ResourceObject V S T)}
    {entries entries' : BTreeMap String String}
    (h : snapshotItems sha256 decode ns bucket entries values = .ok (entries', items)) :
    items.map (·.metadata) = values.map (·.stripped.metadata) ∧
      (∀ o ∈ items, digestBucket sha256 o.metadata.name = bucket ∧ o.metadata.name ∉ entries) ∧
      (items.map (·.metadata.name)).Nodup := by
  induction values generalizing entries items with
  | nil =>
    cases h
    exact ⟨rfl, by simp, by simp⟩
  | cons value values ih =>
    obtain ⟨object, hobject, h⟩ := bind_eq_ok h
    obtain ⟨hkey, h⟩ := of_refuseIf h
    obtain ⟨⟨entries'', items'⟩, hrest, h⟩ := bind_eq_ok h
    cases h
    obtain ⟨hmetadata, hkeys, hnodup⟩ := ih hrest
    simp only [not_or, not_not, ExtTreeMap.contains_iff_mem] at hkey
    refine ⟨?_, ?_, ?_⟩
    · rw [List.map_cons, List.map_cons, fromK8sObject_eq_ok hobject, hmetadata]
    · intro o ho
      rcases List.mem_cons.mp ho with rfl | ho
      · exact hkey.2
      · obtain ⟨hbucket, hfresh⟩ := hkeys o ho
        exact ⟨hbucket, fun hmem => hfresh (ExtTreeMap.mem_insert.mpr (.inr hmem))⟩
    · refine List.nodup_cons.mpr ⟨fun hmem => ?_, hnodup⟩
      obtain ⟨o, ho, hname⟩ := List.mem_map.mp hmem
      exact (hkeys o ho).2 (by rw [hname]; exact ExtTreeMap.mem_insert_self)

theorem snapshot_eq_ok {paths : ApiPaths} {d expected : PartitionDigest V S T}
    {listed : ResourceList V S T}
    (h : d.snapshot sha256 paths decode expected bucket = .ok listed) :
    d.generation = expected.generation ∧ ∃ values entries, d.items = some values ∧
      snapshotItems sha256 decode d.ns bucket ∅ values = .ok (entries, listed.items) := by
  obtain ⟨hidentity, h⟩ := of_refuseIf h
  simp only [not_or, not_not] at hidentity
  obtain ⟨values, hvalues, h⟩ := bind_eq_ok h
  obtain ⟨⟨entries, items⟩, hloop, h⟩ := bind_eq_ok h
  obtain ⟨_, -, h⟩ := bind_eq_ok h
  obtain ⟨-, h⟩ := of_refuseIf h
  cases h
  exact ⟨hidentity.2.2.2.1, values, entries, okOr_eq_ok.mp hvalues, hloop⟩

end Snapshot

end PartitionDigest

/-! ### Equal roots -/

/-- Every name and version has a length that fits its frame. -/
def Short (versions : BTreeMap String String) : Prop :=
  ∀ (name version : String), versions[name]? = some version →
    Framable (utf8 name) ∧ Framable (utf8 version)

theorem leafBytes_inj {entries entries' : BTreeMap String String} (hshort : Short entries)
    (hshort' : Short entries') (h : leafBytes entries = leafBytes entries') :
    entries = entries' := by
  have hframes := List.append_cancel_left h
  rw [List.flatMap_assoc, List.flatMap_assoc] at hframes
  have hmem : ∀ m, Short m → ∀ e ∈ m.toList,
      Framable (utf8 e.1) ∧ Framable (utf8 e.2) :=
    fun m hm e he => hm e.1 e.2 (ExtTreeMap.mem_toList_iff_getElem?_eq_some.mp he)
  have hpairs := map_eq_of_flatMap (g := id) ?_ ?_ (hmem _ hshort) (hmem _ hshort') hframes
  · rw [List.map_id, List.map_id] at hpairs
    exact ExtTreeMap.ext_toList (hpairs ▸ List.Perm.refl _)
  · intro a b x y ha hb h
    simp only [List.flatMap_cons, List.flatMap_nil, List.append_nil, List.append_assoc] at h
    obtain ⟨hname, h⟩ := frame_append_inj ha.1 hb.1 h
    obtain ⟨hversion, hrest⟩ := frame_append_inj ha.2 hb.2 h
    exact ⟨Prod.ext (utf8_injective hname) (utf8_injective hversion), hrest⟩
  · simp [frame_ne_nil]

/-- The bytes hashed for an index and for the root over it. -/
def DigestIndex.inputs (sha256 : Sha256) (paths : ApiPaths) (origin : NodeId) (ns : String)
    (generation : Option String) (d : DigestIndex) : Set (List UInt8) :=
  insert (rootBytes paths origin ns generation (d.hashes sha256))
    (Set.range fun bucket => leafBytes (d.hashed bucket))

section Roots

variable {sha256 : Sha256} {paths : ApiPaths} {origin : NodeId} {ns : String}
  {generation : Option String} {d d' : DigestIndex} {versions versions' : BTreeMap String String}
  {H : Set (List UInt8)}

theorem hex_toList_inj {a b : Vector UInt8 32} (h : hex a.toList = hex b.toList) : a = b :=
  Vector.toList_inj.mp (hex_injective h)

theorem DigestIndex.hashes_eq_of_root_eq (hH : Set.InjOn sha256 H)
    (hd : rootBytes paths origin ns generation (d.hashes sha256) ∈ H)
    (hd' : rootBytes paths origin ns generation (d'.hashes sha256) ∈ H)
    (h : hex (sha256 (rootBytes paths origin ns generation (d.hashes sha256))).toList =
      hex (sha256 (rootBytes paths origin ns generation (d'.hashes sha256))).toList) :
    d.hashes sha256 = d'.hashes sha256 := by
  have hframable : ∀ (d : DigestIndex), ∀ a ∈ (d.hashes sha256).map utf8, Framable a := by
    intro d a ha
    obtain ⟨hash, hhash, rfl⟩ := List.mem_map.mp ha
    obtain ⟨bucket, rfl⟩ := List.mem_ofFn.mp hhash
    have hle := length_utf8_hex_le (sha256 (leafBytes (d.hashed bucket))).toList
    exact lt_of_le_of_lt hle (by norm_num)
  have hbytes := List.append_cancel_left (hH hd hd' (hex_toList_inj h))
  exact List.map_injective_iff.mpr utf8_injective (numbered_inj (hframable d) (hframable d') hbytes)

theorem DigestIndex.hashed_eq_of_hashes_eq (hH : Set.InjOn sha256 H) (bucket : Fin 256)
    (hd : leafBytes (d.hashed bucket) ∈ H) (hd' : leafBytes (d'.hashed bucket) ∈ H)
    (hshort : Short (d.hashed bucket)) (hshort' : Short (d'.hashed bucket))
    (h : d.hashes sha256 = d'.hashes sha256) : d.hashed bucket = d'.hashed bucket := by
  have hhash : hashEntries sha256 (d.hashed bucket) = hashEntries sha256 (d'.hashed bucket) :=
    congrFun (List.ofFn_injective h) bucket
  exact leafBytes_inj hshort hshort' (hH hd hd' (hex_toList_inj hhash))

theorem DigestIndex.Holds.lookup (h : d.Holds sha256 versions) (name : String) :
    (d.entries (digestBucket sha256 name))[name]? = versions[name]? := by
  rw [h.entries, ExtTreeMap.getElem?_filter']
  cases versions[name]? <;> simp [Option.filter]

theorem DigestIndex.Holds.short (h : d.Holds sha256 versions) (hshort : Short versions)
    (bucket : Fin 256) : Short (d.hashed bucket) := by
  intro name version hlookup
  rw [h.hashed, h.entries, ExtTreeMap.getElem?_filter'] at hlookup
  exact hshort name version (Option.filter_eq_some_iff.mp hlookup).1

/-- **Equal roots of one partition mean equal versions**, where the hash does not collide. -/
theorem DigestIndex.Holds.versions_eq_of_root_eq (h : d.Holds sha256 versions)
    (h' : d'.Holds sha256 versions') (hshort : Short versions) (hshort' : Short versions')
    (hH : Set.InjOn sha256 H) (hd : d.inputs sha256 paths origin ns generation ⊆ H)
    (hd' : d'.inputs sha256 paths origin ns generation ⊆ H)
    (hroot : hex (sha256 (rootBytes paths origin ns generation (d.hashes sha256))).toList =
      hex (sha256 (rootBytes paths origin ns generation (d'.hashes sha256))).toList) :
    versions = versions' := by
  have hhashes := DigestIndex.hashes_eq_of_root_eq hH (hd (Set.mem_insert _ _))
    (hd' (Set.mem_insert _ _)) hroot
  apply ExtTreeMap.ext_getElem?
  intro name
  have hbucket := DigestIndex.hashed_eq_of_hashes_eq hH (digestBucket sha256 name)
    (hd (Set.mem_insert_of_mem _ ⟨_, rfl⟩)) (hd' (Set.mem_insert_of_mem _ ⟨_, rfl⟩))
    (h.short hshort _) (h'.short hshort' _) hhashes
  rw [h.hashed, h'.hashed] at hbucket
  rw [← h.lookup, ← h'.lookup, hbucket]

end Roots

end Flotilla
