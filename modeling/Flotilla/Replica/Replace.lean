import Flotilla.Replica.Partition

/-!
# Replacing a partition or one of its buckets

A snapshot replaces the bodies of a whole partition, a digest repair those of
one bucket.  The loops move bodies between the old map and the new one, name by
name; `NameState` is what they do to one name, and `replaceReplicas_lookup` says
what is left there when the listing names every object once.

A full snapshot is authoritative.  A repair keeps the body held where it is
newer than the listed one, and both keep the body held where the listed one is
rejected.  The loops touch the indexes where they change a body, and `tracks_replaceReplicas`
says that the indexes stay in step, again when every object is listed once.
-/

namespace Flotilla.Replica

open Lib Std
open Memory
open Query (QueryIndex)

variable {V S T : Type}

section Definitions

variable [DecidableEq V] [DecidableEq S] [DecidableEq T] (k : ReplicaKind V S T)
  (originRoot : NodeId) (p : ReplicaPartition V S T)

/-! ### The loops -/

structure Screened (V S T : Type) where
  quarantines : BTreeMap String (Quarantine V S T)
  accepted : List (ResourceObject V S T) := []
  rejected : List String := []

def screenOne (now : Timestamp) (s : Screened V S T) (encoded : ResourceObject V S T) :
    Screened V S T :=
  let checked := validateReplicaRecord k now s.quarantines encoded
  if checked.2 then
    { s with quarantines := checked.1, accepted := s.accepted ++ [encoded] }
  else
    { s with quarantines := checked.1, rejected := s.rejected ++ [encoded.metadata.name] }

structure Replacement (V S T : Type) where
  old : BTreeMap String (ResourceObject V S T)
  queries : QueryIndex
  objects : BTreeMap String (ResourceObject V S T)
  digest : DigestIndex
  syncedAtByName : BTreeMap String Timestamp
  quarantines : BTreeMap String (Quarantine V S T)
  events : List (StoredReplicaEvent V S T) := []

-- A repair cut can predate an event the log already applied; the newer body stays.
def heldAgainst (bucket : Option (Fin 256)) (r : Replacement V S T)
    (encoded : ResourceObject V S T) : Option (ResourceObject V S T) :=
  if bucket.isSome then
    r.old[encoded.metadata.name]?.filter fun held => replicaBodyIsNewer held encoded
  else none

def acceptOne (syncedAt : Timestamp) (bucket : Option (Fin 256)) (r : Replacement V S T)
    (encoded : ResourceObject V S T) : Replacement V S T :=
  let name := encoded.metadata.name
  match heldAgainst bucket r encoded with
  | some held => { r with old := r.old.erase name, objects := r.objects.insert name held }
  | none =>
    let unchanged := r.old[name]? = some encoded
    let kind := if r.old.contains name then .modified else .added
    { r with
      quarantines := r.quarantines.erase name
      queries := QueryIndex.update k.kind.schema r.queries name (some (k.kind.tree encoded))
      digest := r.digest.set k.kind.sha256 name (some encoded.metadata.resourceVersion)
      syncedAtByName :=
        if unchanged then r.syncedAtByName else r.syncedAtByName.insert name syncedAt
      events :=
        if unchanged then r.events else r.events ++ [⟨originRoot, syncedAt, kind, .object encoded⟩]
      objects := r.objects.insert name encoded }

def restoreOne (r : Replacement V S T) (name : String) : Replacement V S T :=
  match r.old[name]? with
  | some held => { r with old := r.old.erase name, objects := r.objects.insert name held }
  | none => r

-- The fence stays against stale relays.
def dropOne (syncedAt : Timestamp) (r : Replacement V S T) (entry : String × ResourceObject V S T) :
    Replacement V S T :=
  if r.objects.contains entry.1 then r
  else
    { r with
      queries := QueryIndex.update k.kind.schema r.queries entry.1 none
      digest := r.digest.set k.kind.sha256 entry.1 none
      syncedAtByName := r.syncedAtByName.insert entry.1 syncedAt
      events := r.events ++ [⟨originRoot, syncedAt, .deleted, .object entry.2⟩] }

/-- The names of the index in a bucket, or every name. -/
def affected (bucket : Option (Fin 256)) (name : String) : Bool :=
  match bucket with
  | some leaf => (p.digest.names leaf).contains name
  | none => true

def startReplacement (bucket : Option (Fin 256)) (quarantines : BTreeMap String (Quarantine V S T))
    : Replacement V S T where
  old := p.objects.filter fun name _ => affected p bucket name
  queries := p.queries
  objects := p.objects.filter fun name _ => !affected p bucket name
  digest := p.digest
  syncedAtByName := p.syncedAtByName
  quarantines

def retainQuarantines (bucket : Option (Fin 256)) (listed : List String) :
    BTreeMap String (Quarantine V S T) :=
  p.quarantines.filter fun name _ =>
    bucket.any (fun leaf => k.bucketOf name ≠ leaf) || listed.contains name

def replaceEncoded (encoded : List (ResourceObject V S T)) (syncedAt now : Timestamp)
    (bucket : Option (Fin 256)) : Replacement V S T :=
  let retained := retainQuarantines k p bucket (encoded.map (·.metadata.name))
  let screened := encoded.foldl (screenOne k now) { quarantines := retained }
  let r := startReplacement p bucket screened.quarantines
  let r := screened.accepted.foldl (acceptOne k originRoot syncedAt bucket) r
  let r := screened.rejected.foldl restoreOne r
  r.old.toList.foldl (dropOne k originRoot syncedAt) r

/-- `replace_replicas_raw`: only a full replacement moves the cursor. -/
def replaceReplicas (listed : ResourceList V S T) (syncedAt now : Timestamp)
    (bucket : Option (Fin 256)) : Except ResourceError (ReplicaPartition V S T) := do
  let encoded ← listed.items.mapM (encodeObject k.kind)
  let r := replaceEncoded k originRoot p encoded syncedAt now bucket
  return {
    queries := r.queries
    objects := r.objects
    digest := r.digest
    syncedAtByName := r.syncedAtByName
    cursor :=
      if bucket.isSome then p.cursor else some ⟨listed.resourceVersion, listed.generation⟩
    quarantines := r.quarantines
    notified := p.notified ++ r.events }

/-- `ReplicaWriter::replace`. -/
def replace (listed : ResourceList V S T) (syncedAt now : Timestamp) :
    Except ResourceError (ReplicaPartition V S T) := do
  ensureReplicationEnabled k
  replaceReplicas k originRoot p listed syncedAt now none

/-- `ReplicaWriter::replace_bucket`. -/
def replaceBucket (ns : String) (p : ReplicaPartition V S T) (bucket : Fin 256)
    (listed : ResourceList V S T) (syncedAt now : Timestamp) :
    Except ResourceError (ReplicaPartition V S T) := do
  ensureReplicationEnabled k
  if listed.items.any fun o => k.bucketOf o.metadata.name ≠ bucket || o.metadata.ns ≠ ns then
    throw (.invalid "snapshot contains keys outside its partition")
  replaceReplicas k originRoot p listed syncedAt now (some bucket)

end Definitions

/-! ### One name -/

section OneName

/-- What the loops hold of one name. -/
structure NameState (V S T : Type) where
  old : Option (ResourceObject V S T)
  object : Option (ResourceObject V S T)
  syncedAt : Option Timestamp

def Replacement.at (r : Replacement V S T) (name : String) : NameState V S T :=
  ⟨r.old[name]?, r.objects[name]?, r.syncedAtByName[name]?⟩

namespace NameState

def accept [DecidableEq V] [DecidableEq S] [DecidableEq T] (syncedAt : Timestamp)
    (bucket : Option (Fin 256)) (encoded : ResourceObject V S T) (x : NameState V S T) :
    NameState V S T :=
  if bucket.isSome ∧ x.old.any (fun held => replicaBodyIsNewer held encoded) then
    { x with old := none, object := x.old }
  else
    { x with
      object := some encoded
      syncedAt := if x.old = some encoded then x.syncedAt else some syncedAt }

def restore (x : NameState V S T) : NameState V S T :=
  match x.old with
  | some held => { x with old := none, object := some held }
  | none => x

def drop (syncedAt : Timestamp) (x : NameState V S T) : NameState V S T :=
  if x.object.isSome then x else { x with syncedAt := some syncedAt }

/-- The last loop visits the names still in the old map. -/
def finish (syncedAt : Timestamp) (x : NameState V S T) : NameState V S T :=
  if x.old.isSome then x.drop syncedAt else x

end NameState

variable {k : ReplicaKind V S T} {originRoot : NodeId} {syncedAt : Timestamp}
  {bucket : Option (Fin 256)}

theorem heldAgainst_eq_some_iff {r : Replacement V S T} {encoded held : ResourceObject V S T} :
    heldAgainst bucket r encoded = some held ↔
      bucket.isSome = true ∧ r.old[encoded.metadata.name]? = some held ∧
        replicaBodyIsNewer held encoded = true := by
  unfold heldAgainst
  by_cases h : bucket.isSome = true
  · simp [h, Option.filter_eq_some_iff]
  · simp [h]

theorem at_restoreOne (r : Replacement V S T) (name : String) :
    (restoreOne r name).at name = (r.at name).restore := by
  unfold restoreOne NameState.restore Replacement.at
  cases hold : r.old[name]? <;> simp [hold]

theorem at_restoreOne_other (r : Replacement V S T) (restored name : String)
    (h : restored ≠ name) : (restoreOne r restored).at name = r.at name := by
  unfold restoreOne Replacement.at
  cases r.old[restored]? <;>
    simp [ExtTreeMap.getElem?_erase, ExtTreeMap.getElem?_insert, h]

theorem at_dropOne (r : Replacement V S T) (entry : String × ResourceObject V S T) :
    (dropOne k originRoot syncedAt r entry).at entry.1 = (r.at entry.1).drop syncedAt := by
  unfold dropOne NameState.drop Replacement.at
  rw [ExtTreeMap.contains_eq_isSome_getElem?]
  by_cases h : r.objects[entry.1]?.isSome = true <;> simp [h]

theorem at_dropOne_other (r : Replacement V S T) (entry : String × ResourceObject V S T)
    (name : String) (h : entry.1 ≠ name) :
    (dropOne k originRoot syncedAt r entry).at name = r.at name := by
  unfold dropOne Replacement.at
  by_cases hc : r.objects.contains entry.1 = true <;>
    simp [hc, ExtTreeMap.getElem?_insert, h]

theorem at_dropAll (r : Replacement V S T) (name : String) :
    (r.old.toList.foldl (dropOne k originRoot syncedAt) r).at name =
      (r.at name).finish syncedAt := by
  have hnodup : (r.old.toList.map Prod.fst).Nodup := nodup_keys_toList r.old
  cases hold : r.old[name]? with
  | none =>
    have hfinish : (r.at name).finish syncedAt = r.at name :=
      if_neg (by simp [Replacement.at, hold])
    rw [hfinish]
    refine view_foldl_other Replacement.at at_dropOne_other ?_ r
    intro entry hentry heq
    have hlookup := ExtTreeMap.mem_toList_iff_getElem?_eq_some.mp hentry
    rw [heq, hold] at hlookup
    cases hlookup
  | some held =>
    have hfinish : (r.at name).finish syncedAt = (r.at name).drop syncedAt :=
      if_pos (by simp [Replacement.at, hold])
    rw [hfinish]
    have hentry : (name, held) ∈ r.old.toList :=
      ExtTreeMap.mem_toList_iff_getElem?_eq_some.mpr hold
    exact view_foldl_key Replacement.at at_dropOne at_dropOne_other hnodup
      hentry r

variable [DecidableEq V] [DecidableEq S] [DecidableEq T]

theorem at_acceptOne (r : Replacement V S T) (encoded : ResourceObject V S T) :
    (acceptOne k originRoot syncedAt bucket r encoded).at encoded.metadata.name =
      (r.at encoded.metadata.name).accept syncedAt bucket encoded := by
  unfold NameState.accept
  cases hheld : heldAgainst bucket r encoded with
  | some held =>
    obtain ⟨hbucket, hold, hnewer⟩ := heldAgainst_eq_some_iff.mp hheld
    rw [if_pos ⟨hbucket, by simp [Replacement.at, hold, hnewer]⟩]
    simp [acceptOne, hheld, Replacement.at, hold]
  | none =>
    rw [if_neg]
    · by_cases h : r.old[encoded.metadata.name]? = some encoded <;>
        simp [acceptOne, hheld, Replacement.at, h]
    · intro ⟨hbucket, hany⟩
      obtain ⟨held, hold, hnewer⟩ := (Option.any_eq_true _ _).mp hany
      rw [heldAgainst_eq_some_iff.mpr ⟨hbucket, hold, hnewer⟩] at hheld
      cases hheld

theorem at_acceptOne_other (r : Replacement V S T) (encoded : ResourceObject V S T)
    (name : String) (h : encoded.metadata.name ≠ name) :
    (acceptOne k originRoot syncedAt bucket r encoded).at name = r.at name := by
  unfold acceptOne Replacement.at
  split
  · simp [ExtTreeMap.getElem?_erase, ExtTreeMap.getElem?_insert, h]
  · by_cases hold : r.old[encoded.metadata.name]? = some encoded <;>
      simp [ExtTreeMap.getElem?_insert, h, hold]

end OneName

/-! ### The result -/

section Result

variable {k : ReplicaKind V S T} {originRoot : NodeId} {p : ReplicaPartition V S T}
  {syncedAt : Timestamp} {bucket : Option (Fin 256)} {name : String}
  {encoded : ResourceObject V S T}

/-- The state of a name before the loops. -/
def startAt (p : ReplicaPartition V S T) (bucket : Option (Fin 256))
    (name : String) : NameState V S T where
  old := p.objects[name]?.filter fun _ => affected p bucket name
  object := p.objects[name]?.filter fun _ => !affected p bucket name
  syncedAt := p.syncedAtByName[name]?

theorem at_startReplacement (quarantines : BTreeMap String (Quarantine V S T)) :
    (startReplacement p bucket quarantines).at name = startAt p bucket name := by
  simp [startReplacement, startAt, Replacement.at]

theorem finish_restore (x : NameState V S T) : x.restore.finish syncedAt = x.restore := by
  have hold : x.restore.old = none := by
    unfold NameState.restore
    split
    next => rfl
    next h => exact h
  unfold NameState.finish
  rw [hold]
  rfl

/-- The restoring loop, at one name. -/
theorem at_restoreAll {rejected : List String} (hnodup : rejected.Nodup)
    (r : Replacement V S T) :
    (name ∈ rejected → (rejected.foldl restoreOne r).at name = (r.at name).restore) ∧
      (name ∉ rejected → (rejected.foldl restoreOne r).at name = r.at name) := by
  constructor
  · intro hname
    exact view_foldl_key Replacement.at at_restoreOne at_restoreOne_other
      (by simpa using hnodup) hname r
  · intro hname
    have hother : ∀ a ∈ rejected, a ≠ name := fun a ha h => hname (h ▸ ha)
    exact view_foldl_other Replacement.at at_restoreOne_other hother r

variable [DecidableEq V] [DecidableEq S] [DecidableEq T]

theorem screen_lists (now : Timestamp) (encoded : List (ResourceObject V S T))
    (s : Screened V S T) :
    (encoded.foldl (screenOne k now) s).accepted = s.accepted ++ encoded.filter k.valid ∧
      (encoded.foldl (screenOne k now) s).rejected =
        s.rejected ++ (encoded.filter (!k.valid ·)).map (·.metadata.name) := by
  induction encoded generalizing s with
  | nil => simp
  | cons e encoded ih =>
    rw [List.foldl_cons, (ih _).1, (ih _).2]
    by_cases hvalid : k.valid e = true <;>
      simp [screenOne, validateReplicaRecord_snd, hvalid]

/-- The state of a name after the loops, by the listed body of that name. -/
def NameState.settle (k : ReplicaKind V S T) (syncedAt : Timestamp) (bucket : Option (Fin 256))
    (item : Option (ResourceObject V S T)) (x : NameState V S T) : NameState V S T :=
  match item with
  | some encoded => if k.valid encoded then x.accept syncedAt bucket encoded else x.restore
  | none => x.finish syncedAt

theorem settle_valid (h : k.valid encoded = true) (x : NameState V S T) :
    x.settle k syncedAt bucket (some encoded) = x.accept syncedAt bucket encoded :=
  if_pos h

theorem settle_invalid (h : k.valid encoded = false) (x : NameState V S T) :
    x.settle k syncedAt bucket (some encoded) = x.restore :=
  if_neg (by simp [h])

theorem finish_accept (x : NameState V S T) :
    (x.accept syncedAt bucket encoded).finish syncedAt = x.accept syncedAt bucket encoded := by
  have hobject : (x.accept syncedAt bucket encoded).object.isSome = true := by
    unfold NameState.accept
    split
    next h =>
      obtain ⟨held, hold, -⟩ := (Option.any_eq_true _ _).mp h.2
      simp [hold]
    next => rfl
  unfold NameState.finish NameState.drop
  rw [if_pos hobject, ite_self]

/-- The accepting loop, at one name. -/
theorem at_acceptAll {encoded : List (ResourceObject V S T)}
    (hnodup : (encoded.map (·.metadata.name)).Nodup) (r : Replacement V S T) :
    (∀ e ∈ encoded, k.valid e = true → e.metadata.name = name →
      ((encoded.filter k.valid).foldl (acceptOne k originRoot syncedAt bucket) r).at name =
        (r.at name).accept syncedAt bucket e) ∧
    ((∀ e ∈ encoded, k.valid e = true → e.metadata.name ≠ name) →
      ((encoded.filter k.valid).foldl (acceptOne k originRoot syncedAt bucket) r).at name =
        r.at name) := by
  constructor
  · intro e he hvalid hname
    rw [← hname]
    exact view_foldl_key Replacement.at at_acceptOne
      at_acceptOne_other (hnodup.sublist (List.filter_sublist.map _))
      (List.mem_filter.mpr ⟨he, hvalid⟩) r
  · intro hother
    refine view_foldl_other Replacement.at at_acceptOne_other ?_ r
    intro e he
    obtain ⟨he, hvalid⟩ := List.mem_filter.mp he
    exact hother e he hvalid

/-- **What a replacement leaves at a name**, when every object is listed once. -/
theorem replaceEncoded_at (k : ReplicaKind V S T) (originRoot : NodeId)
    (p : ReplicaPartition V S T) {encoded : List (ResourceObject V S T)}
    (hnodup : (encoded.map (·.metadata.name)).Nodup) (syncedAt now : Timestamp)
    (bucket : Option (Fin 256)) (name : String) :
    (replaceEncoded k originRoot p encoded syncedAt now bucket).at name =
      (startAt p bucket name).settle k syncedAt bucket
        (encoded.find? (·.metadata.name = name)) := by
  have hrejected : ((encoded.filter (!k.valid ·)).map (·.metadata.name)).Nodup :=
    hnodup.sublist (List.filter_sublist.map _)
  have hmem : name ∈ (encoded.filter (!k.valid ·)).map (·.metadata.name) ↔
      ∃ e ∈ encoded, k.valid e = false ∧ e.metadata.name = name := by
    simp [and_assoc]
  unfold replaceEncoded
  simp only [(screen_lists _ encoded _).1, (screen_lists _ encoded _).2, List.nil_append,
    at_dropAll]
  rw [← at_startReplacement]
  generalize startReplacement p bucket _ = r
  cases hfind : encoded.find? (·.metadata.name = name) with
  | none =>
    have hother : ∀ e ∈ encoded, e.metadata.name ≠ name := by simpa using hfind
    rw [(at_restoreAll hrejected _).2, (at_acceptAll hnodup r).2 fun e he _ => hother e he]
    · rfl
    · intro h
      obtain ⟨e, he, -, hname⟩ := hmem.mp h
      exact hother e he hname
  | some e =>
    obtain ⟨he, hname⟩ := of_find? hfind
    have hunique : ∀ e' ∈ encoded, e'.metadata.name = name → e' = e := fun e' he' h =>
      List.inj_on_of_nodup_map hnodup he' he (h.trans hname.symm)
    cases hvalid : k.valid e with
    | true =>
      rw [(at_restoreAll hrejected _).2, (at_acceptAll hnodup r).1 e he hvalid hname,
        finish_accept]
      · exact (settle_valid hvalid _).symm
      · intro h
        obtain ⟨e', he', hinvalid, hname'⟩ := hmem.mp h
        rw [hunique e' he' hname', hvalid] at hinvalid
        cases hinvalid
    | false =>
      rw [(at_restoreAll hrejected _).1 (hmem.mpr ⟨e, he, hvalid, hname⟩),
        (at_acceptAll hnodup r).2, finish_restore]
      · exact (settle_invalid hvalid _).symm
      · intro e' he' hvalid' hname'
        rw [hunique e' he' hname', hvalid] at hvalid'
        cases hvalid'

end Result

/-! ### Consequences for the partition -/

section Consequences

variable {k : ReplicaKind V S T} {originRoot : NodeId} {p p' : ReplicaPartition V S T}
  {listed : ResourceList V S T} {syncedAt now : Timestamp} {bucket : Option (Fin 256)}
  {leaf : Fin 256} {name : String}

/-- The listed body of a name, as the replica stores it. -/
def listedAt (listed : ResourceList V S T) (name : String) : Option (ResourceObject V S T) :=
  (listed.items.find? (·.metadata.name = name)).map ResourceObject.stripped

theorem mapM_encodeObject {items encoded : List (ResourceObject V S T)}
    (h : items.mapM (encodeObject k.kind) = .ok encoded) :
    encoded = items.map ResourceObject.stripped := by
  have hall : ∀ o ∈ items, encodeObject k.kind o = .ok o.stripped := by
    intro o ho
    obtain ⟨e, he⟩ := mapM_eq_ok h o ho
    rw [he, encodeObject_eq_ok he]
  exact Except.ok.inj (h.symm.trans (mapM_ok hall))

/-- A full replacement, and a repair of the name's bucket, start with the body in the old map. -/
theorem startAt_covered (hindexed : Indexed k p)
    (hcovered : ∀ leaf ∈ bucket, k.bucketOf name = leaf) :
    startAt p bucket name = ⟨p.objects[name]?, none, p.syncedAtByName[name]?⟩ := by
  have haffected : ∀ held, p.objects[name]? = some held → affected p bucket name = true := by
    intro held hheld
    cases bucket with
    | none => rfl
    | some leaf =>
      have hname : name ∈ p.digest.names leaf := by
        refine (DigestIndex.Holds.mem_names hindexed).mpr ⟨?_, hcovered leaf rfl⟩
        rw [ExtTreeMap.mem_map]
        exact BTreeMap.mem_of_lookup hheld
      exact List.contains_iff_mem.mpr hname
  unfold startAt
  cases hheld : p.objects[name]? with
  | none => simp
  | some held => simp [haffected held hheld]

/-! ### The indexes -/

section Indexes

variable {I : DigestIndex → QueryIndex → BTreeMap String (ResourceObject V S T) → Prop}
  {r : Replacement V S T}

/-- The indexes are those of the new map and, where it has nothing, of what still waits. -/
def Staged (I : DigestIndex → QueryIndex → BTreeMap String (ResourceObject V S T) → Prop)
    (r : Replacement V S T) (waiting : String → Option (ResourceObject V S T)) : Prop :=
  ∃ bodies, I r.digest r.queries bodies ∧
    ∀ name : String, bodies[name]? = r.objects[name]?.or (waiting name)

/-- What waits is in the old map. -/
def Tracked (I : DigestIndex → QueryIndex → BTreeMap String (ResourceObject V S T) → Prop)
    (r : Replacement V S T) : Prop :=
  Staged I r fun name => r.old[name]?

/-- A name that waits is not yet in the new map. -/
def NameState.Apart (x : NameState V S T) : Prop := x.old.isSome = true → x.object = none

variable {encoded : List (ResourceObject V S T)}

/-- Moving a body from the old map to the new one needs no index. -/
theorem Tracked.move (h : Tracked I r) {held : ResourceObject V S T}
    (hold : r.old[name]? = some held) (hapart : (r.at name).Apart) :
    Tracked I { r with old := r.old.erase name, objects := r.objects.insert name held } := by
  obtain ⟨bodies, hI, hbodies⟩ := h
  refine ⟨bodies, hI, fun name' => ?_⟩
  have hnone : r.objects[name]? = none := hapart (by simp [Replacement.at, hold])
  beta_reduce
  rw [hbodies, ExtTreeMap.getElem?_insert, ExtTreeMap.getElem?_erase]
  by_cases hname : compare name name' = .eq
  · obtain rfl := Std.compare_eq_iff_eq.mp hname
    simp [hnone, hold]
  · rw [if_neg hname, if_neg hname]

theorem Tracked.restoreOne (h : Tracked I r) (hapart : (r.at name).Apart) :
    Tracked I (restoreOne r name) := by
  unfold Replica.restoreOne
  cases hold : r.old[name]? with
  | some held => exact h.move hold hapart
  | none => exact h

/-- The last loop takes out of the indexes what waits and was not moved. -/
theorem Staged.dropAll (hI : Tracks k.kind I) {l : List (String × ResourceObject V S T)}
    (hnodup : (l.map Prod.fst).Nodup)
    (h : Staged I r fun name => (l.find? (·.1 = name)).map Prod.snd) :
    I (l.foldl (dropOne k originRoot syncedAt) r).digest
      (l.foldl (dropOne k originRoot syncedAt) r).queries
      (l.foldl (dropOne k originRoot syncedAt) r).objects := by
  induction l generalizing r with
  | nil =>
    obtain ⟨bodies, hbodies, hlookup⟩ := h
    have heq : bodies = r.objects := by
      apply ExtTreeMap.ext_getElem?
      intro name
      rw [hlookup]
      exact Option.or_none
    exact heq ▸ hbodies
  | cons entry l ih =>
    obtain ⟨hentry, hnodup⟩ := List.nodup_cons.mp hnodup
    have habsent : l.find? (·.1 = entry.1) = none := by
      rw [List.find?_eq_none]
      intro e he heq
      exact hentry (List.mem_map.mpr ⟨e, he, of_decide_eq_true heq⟩)
    obtain ⟨bodies, hbodies, hlookup⟩ := h
    refine ih hnodup ?_
    unfold dropOne
    rw [ExtTreeMap.contains_eq_isSome_getElem?]
    split
    next hmoved =>
      refine ⟨bodies, hbodies, fun name => ?_⟩
      rw [hlookup]
      by_cases hname : entry.1 = name
      · subst hname
        obtain ⟨o, ho⟩ := Option.isSome_iff_exists.mp hmoved
        simp [ho]
      · simp [hname]
    next hmoved =>
      refine ⟨_, hI.remove hbodies entry.1, fun name => ?_⟩
      rw [ExtTreeMap.getElem?_erase]
      split
      next hname =>
        obtain rfl := Std.compare_eq_iff_eq.mp hname
        beta_reduce
        rw [Option.not_isSome_iff_eq_none.mp hmoved, habsent]
        rfl
      next hname =>
        have hne : ¬ entry.1 = name := fun heq => hname (Std.compare_eq_iff_eq.mpr heq)
        rw [hlookup]
        simp [hne]

/-- A body is in one of the two maps at the start. -/
theorem apart_startReplacement (quarantines : BTreeMap String (Quarantine V S T)) (name : String) :
    ((startReplacement p bucket quarantines).at name).Apart := by
  rw [at_startReplacement]
  unfold NameState.Apart startAt
  cases p.objects[name]? with
  | none => simp
  | some held => cases affected p bucket name <;> simp

theorem tracked_startReplacement (hp : I p.digest p.queries p.objects)
    (quarantines : BTreeMap String (Quarantine V S T)) :
    Tracked I (startReplacement p bucket quarantines) := by
  refine ⟨p.objects, hp, fun name => ?_⟩
  simp only [startReplacement, ExtTreeMap.getElem?_filter']
  cases p.objects[name]? with
  | none => rfl
  | some held => cases affected p bucket name <;> simp [Option.filter]

theorem Tracked.restoreAll (h : Tracked I r) {rejected : List String}
    (hnodup : rejected.Nodup) (hapart : ∀ name ∈ rejected, (r.at name).Apart) :
    Tracked I (rejected.foldl Replica.restoreOne r) := by
  have hids : (rejected.map id).Nodup := by rwa [List.map_id]
  exact foldl_guarded Replica.restoreOne id Replacement.at
    (fun r name hr hguard => hr.restoreOne hguard) at_restoreOne_other hids hapart h

variable [DecidableEq V] [DecidableEq S] [DecidableEq T]

theorem Tracked.acceptOne (hI : Tracks k.kind I) (h : Tracked I r)
    {encoded : ResourceObject V S T} (hapart : (r.at encoded.metadata.name).Apart) :
    Tracked I (acceptOne k originRoot syncedAt bucket r encoded) := by
  unfold Replica.acceptOne
  cases hheld : heldAgainst bucket r encoded with
  | some held => exact h.move (heldAgainst_eq_some_iff.mp hheld).2.1 hapart
  | none =>
    obtain ⟨bodies, hbodies, hlookup⟩ := h
    refine ⟨_, hI.put hbodies encoded, fun name => ?_⟩
    rw [ExtTreeMap.getElem?_insert, ExtTreeMap.getElem?_insert]
    split
    · rfl
    · exact hlookup name

/-- The accepting loop keeps the indexes in step and leaves the rejected names waiting. -/
theorem Tracked.acceptAll (hI : Tracks k.kind I) (h : Tracked I r)
    (hapart : ∀ name, (r.at name).Apart) (hnames : (encoded.map (·.metadata.name)).Nodup)
    {r' : Replacement V S T}
    (hr' : (encoded.filter k.valid).foldl (Replica.acceptOne k originRoot syncedAt bucket) r = r') :
    Tracked I r' ∧
      ∀ name ∈ (encoded.filter (!k.valid ·)).map (·.metadata.name), (r'.at name).Apart := by
  subst hr'
  refine ⟨?_, ?_⟩
  · exact foldl_guarded (Replica.acceptOne k originRoot syncedAt bucket) (·.metadata.name)
      Replacement.at
      (fun r e hr hguard => hr.acceptOne hI hguard) at_acceptOne_other
      (hnames.sublist (List.filter_sublist.map _)) (fun e _ => hapart _) h
  · intro name hname
    obtain ⟨e, he, rfl⟩ := List.mem_map.mp hname
    obtain ⟨he, hinvalid⟩ := List.mem_filter.mp he
    rw [(at_acceptAll hnames r).2]
    · exact hapart _
    · intro e' he' hvalid heq
      rw [List.inj_on_of_nodup_map hnames he' he heq] at hvalid
      simp [hvalid] at hinvalid

/-- **A replacement that lists every object once keeps the indexes in step.** -/
theorem tracks_replaceEncoded (hI : Tracks k.kind I) (hp : I p.digest p.queries p.objects)
    (hnames : (encoded.map (·.metadata.name)).Nodup)
    (hr : replaceEncoded k originRoot p encoded syncedAt now bucket = r) :
    I r.digest r.queries r.objects := by
  subst hr
  unfold replaceEncoded
  simp only [(screen_lists _ encoded _).1, (screen_lists _ encoded _).2, List.nil_append]
  generalize hstart : startReplacement p bucket _ = start
  have hstaged : Tracked I start := hstart ▸ tracked_startReplacement hp _
  have hapart : ∀ name, (start.at name).Apart := fun name => hstart ▸ apart_startReplacement _ name
  generalize haccept : (encoded.filter k.valid).foldl _ start = accepted
  obtain ⟨haccepted, hwaiting⟩ := hstaged.acceptAll hI hapart hnames haccept
  have hrejected : ((encoded.filter (!k.valid ·)).map (·.metadata.name)).Nodup :=
    hnames.sublist (List.filter_sublist.map _)
  have hrestored := haccepted.restoreAll hrejected hwaiting
  generalize ((encoded.filter (!k.valid ·)).map (·.metadata.name)).foldl restoreOne accepted =
    restored at hrestored ⊢
  refine Staged.dropAll hI (nodup_keys_toList restored.old) ?_
  simp only [find?_toList]
  exact hrestored

theorem tracks_replaceReplicas (hI : Tracks k.kind I) (hp : I p.digest p.queries p.objects)
    (h : replaceReplicas k originRoot p listed syncedAt now bucket = .ok p')
    (hnodup : (listed.items.map (·.metadata.name)).Nodup) : I p'.digest p'.queries p'.objects := by
  obtain ⟨encoded, hencoded, h⟩ := bind_eq_ok h
  have hnames : (encoded.map (·.metadata.name)).Nodup := by
    rw [mapM_encodeObject hencoded, List.map_map]
    exact hnodup
  cases h
  exact tracks_replaceEncoded hI hp hnames rfl

end Indexes

variable [DecidableEq V] [DecidableEq S] [DecidableEq T]

theorem replaceReplicas_lookup
    (h : replaceReplicas k originRoot p listed syncedAt now bucket = .ok p')
    (hnodup : (listed.items.map (·.metadata.name)).Nodup) (name : String) :
    ∃ x, x = (startAt p bucket name).settle k syncedAt bucket (listedAt listed name) ∧
      p'.objects[name]? = x.object ∧ p'.syncedAtByName[name]? = x.syncedAt := by
  obtain ⟨encoded, hencoded, h⟩ := bind_eq_ok h
  have hstripped := mapM_encodeObject hencoded
  have hnames : (encoded.map (·.metadata.name)).Nodup := by
    rw [hstripped, List.map_map]
    exact hnodup
  have hfind : encoded.find? (·.metadata.name = name) = listedAt listed name := by
    rw [hstripped, List.find?_map]
    rfl
  cases h
  have hat := replaceEncoded_at k originRoot p hnames syncedAt now bucket name
  rw [hfind] at hat
  exact ⟨_, rfl, congrArg NameState.object hat, congrArg NameState.syncedAt hat⟩

theorem cursor_replaceReplicas
    (h : replaceReplicas k originRoot p listed syncedAt now bucket = .ok p') :
    p'.cursor = if bucket.isSome then p.cursor
      else some ⟨listed.resourceVersion, listed.generation⟩ := by
  obtain ⟨encoded, -, h⟩ := bind_eq_ok h
  cases h
  rfl

/-- A sync time once recorded stays recorded. -/
theorem isSome_syncedAt_settle (item : Option (ResourceObject V S T)) (x : NameState V S T)
    (h : x.syncedAt.isSome = true) : (x.settle k syncedAt bucket item).syncedAt.isSome = true := by
  cases item with
  | none =>
    unfold NameState.settle NameState.finish NameState.drop
    split_ifs <;> simp [h]
  | some encoded =>
    cases hvalid : k.valid encoded with
    | true =>
      rw [settle_valid hvalid]
      unfold NameState.accept
      split_ifs <;> simp [h]
    | false =>
      rw [settle_invalid hvalid]
      unfold NameState.restore
      split <;> exact h

theorem replaceBucket_eq_ok {ns : String}
    (h : replaceBucket k originRoot ns p leaf listed syncedAt now = .ok p') :
    (∀ o ∈ listed.items, k.bucketOf o.metadata.name = leaf) ∧
      replaceReplicas k originRoot p listed syncedAt now (some leaf) = .ok p' := by
  obtain ⟨_, _, h⟩ := bind_eq_ok h
  split at h
  · cases h
  next hinside =>
    refine ⟨?_, h⟩
    intro o ho
    by_contra hleaf
    exact hinside (List.any_eq_true.mpr ⟨o, ho, by simp [hleaf]⟩)

/-- A body found after the repair of a bucket was held before, or is listed and
no older than what was held. -/
theorem replaceBucket_lookup (hindexed : Indexed k p)
    (h : replaceReplicas k originRoot p listed syncedAt now (some leaf) = .ok p')
    (hnodup : (listed.items.map (·.metadata.name)).Nodup)
    (hcovered : ∀ o ∈ listed.items, k.bucketOf o.metadata.name = leaf) {body : ResourceObject V S T}
    (hbody : p'.objects[name]? = some body) :
    p.objects[name]? = some body ∨
      ∃ o ∈ listed.items, o.metadata.name = name ∧ body = o.stripped ∧
        ∀ held, p.objects[name]? = some held → replicaBodyIsNewer held body = false := by
  obtain ⟨x, hx, hobject, -⟩ := replaceReplicas_lookup h hnodup name
  rw [hobject, hx] at hbody
  unfold listedAt at hbody
  cases hfind : listed.items.find? (·.metadata.name = name) with
  | none =>
    rw [hfind] at hbody
    have hfinish : ((startAt p (some leaf) name).finish syncedAt).object = some body := hbody
    unfold NameState.finish NameState.drop startAt at hfinish
    refine .inl ?_
    cases hheld : p.objects[name]? with
    | none => simp [hheld] at hfinish
    | some held =>
      by_cases haffected : affected p (some leaf) name = true <;>
        simp_all
  | some o =>
    obtain ⟨ho, hname⟩ := of_find? hfind
    have hleaf := hname ▸ hcovered o ho
    rw [hfind, startAt_covered hindexed (by simpa using hleaf), Option.map_some] at hbody
    cases hvalid : k.valid o.stripped with
    | false =>
      rw [settle_invalid hvalid] at hbody
      unfold NameState.restore at hbody
      cases hheld : p.objects[name]? with
      | none => simp [hheld] at hbody
      | some held => exact .inl (by simpa [hheld] using hbody)
    | true =>
      rw [settle_valid hvalid] at hbody
      unfold NameState.accept at hbody
      split at hbody
      · exact .inl hbody
      next hkeep =>
        cases hbody
        refine .inr ⟨o, ho, hname, rfl, ?_⟩
        intro held hheld
        simpa [hheld] using hkeep

end Consequences

end Flotilla.Replica
