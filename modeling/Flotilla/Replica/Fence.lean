import Flotilla.Replica.Replace

/-!
# The deletion fence

A deleted name leaves its sync time behind, as a fence against older writes that
are still on their way.  The fence is a time, while a deletion is newer or older
than a write by its version, and a bucket repair does not look at the fence.

Here operations of every path run against a partition, and the deletions that
took effect are kept beside it.  `runAll_deleted` : a deleted name never shows a
version below its deletion, as long as times and versions agree on the writes
that meet a fence and no repair lists a deleted name at a lower version.
-/

namespace Flotilla.Replica

open Lib
open Memory

variable {V S T : Type}

/-! ### Operations and runs -/

section Runs

variable [DecidableEq V] [DecidableEq S] [DecidableEq T]

inductive ReplicaOp (V S T : Type) where
  | event (e : WatchEvent V S T) (syncedAt now : Timestamp)
  | replaceBucket (leaf : Fin 256) (listed : ResourceList V S T) (syncedAt now : Timestamp)
  | moveCursor (cursor : Option ReplicaCursor)

/-- A partition, with the names and versions of the deletions applied to it. -/
structure Deletions (V S T : Type) where
  partition : ReplicaPartition V S T
  deleted : List (String × Nat) := []

/-- A deletion counts once its call returns and its name is not held. -/
def Deletions.record (s : Deletions V S T) (e : WatchEvent V S T) (p : ReplicaPartition V S T) :
    List (String × Nat) :=
  match e.upserted, e.version with
  | none, some v => if p.objects.contains e.name then s.deleted else (e.name, v) :: s.deleted
  | _, _ => s.deleted

def Deletions.apply (k : ReplicaKind V S T) (originRoot : NodeId) (ns : String)
    (s : Deletions V S T) : ReplicaOp V S T → Deletions V S T
  | .event e syncedAt now =>
    match applyEvent k originRoot s.partition e syncedAt now with
    | (p, .ok _) => ⟨p, s.record e p⟩
    | (p, .error _) => ⟨p, s.deleted⟩
  | .replaceBucket leaf listed syncedAt now =>
    match Replica.replaceBucket k originRoot ns s.partition leaf listed syncedAt now with
    | .ok p => ⟨p, s.deleted⟩
    | .error _ => s
  | .moveCursor cursor => { s with partition := { s.partition with cursor } }

def Deletions.runAll (k : ReplicaKind V S T) (originRoot : NodeId) (ns : String)
    (s : Deletions V S T) (ops : List (ReplicaOp V S T)) : Deletions V S T :=
  ops.foldl (Deletions.apply k originRoot ns) s

/-- Every version the operation carries is a number. -/
def ReplicaOp.Numeric : ReplicaOp V S T → Prop
  | .event e _ _ => e.version.isSome = true
  | .replaceBucket _ listed _ _ => ∀ o ∈ listed.items, (replicaVersion o).isSome = true
  | .moveCursor _ => True

instance (op : ReplicaOp V S T) : Decidable op.Numeric :=
  match op with
  | .event e _ _ => inferInstanceAs (Decidable (e.version.isSome = true))
  | .replaceBucket _ listed _ _ =>
    inferInstanceAs (Decidable (∀ o ∈ listed.items, (replicaVersion o).isSome = true))
  | .moveCursor _ => inferInstanceAs (Decidable True)

/-- Where an operation carries a version below a deletion of a name that is not
held, a write is stamped no later than the fence and a repair does not list it. -/
def Deletions.InOrder (s : Deletions V S T) : ReplicaOp V S T → Prop
  | .event e syncedAt _ =>
    ∀ o, e.upserted = some o → ∀ v w, (e.name, v) ∈ s.deleted → e.version = some w → w < v →
      s.partition.objects[e.name]? = none →
      ∀ fence, s.partition.syncedAtByName[e.name]? = some fence → syncedAt ≤ fence
  | .replaceBucket _ listed _ _ =>
    (listed.items.map (·.metadata.name)).Nodup ∧
      ∀ o ∈ listed.items, ∀ v w, (o.metadata.name, v) ∈ s.deleted → replicaVersion o = some w →
        s.partition.objects[o.metadata.name]? = none → v ≤ w
  | .moveCursor _ => True

def Deletions.AllInOrder (k : ReplicaKind V S T) (originRoot : NodeId) (ns : String) :
    Deletions V S T → List (ReplicaOp V S T) → Prop
  | _, [] => True
  | s, op :: rest =>
    s.InOrder op ∧ Deletions.AllInOrder k originRoot ns (s.apply k originRoot ns op) rest

end Runs

/-! ### The invariant -/

structure Fenced (k : ReplicaKind V S T) (s : Deletions V S T) : Prop where
  indexed : Indexed k s.partition
  fence : ∀ name v, (name, v) ∈ s.deleted → s.partition.syncedAtByName[name]?.isSome = true
  newer : ∀ name v, (name, v) ∈ s.deleted → ∀ body, s.partition.objects[name]? = some body →
    ∃ w, replicaVersion body = some w ∧ v ≤ w

variable {k : ReplicaKind V S T} {originRoot : NodeId} {ns : String} {s : Deletions V S T}
  {e : WatchEvent V S T} {syncedAt now : Timestamp} {name : String} {o : ResourceObject V S T}
  {p : ReplicaPartition V S T} {v w : Nat}

theorem of_upserted (h : e.upserted = some o) :
    e.name = o.stripped.metadata.name ∧ e.version = replicaVersion o.stripped := by
  cases e with
  | added o' => cases h; exact ⟨rfl, rfl⟩
  | modified o' => cases h; exact ⟨rfl, rfl⟩
  | deleted o' => cases h
  | deletedByName t => cases h

theorem heldIsNewer_of_lt {held : ResourceObject V S T} (hheld : p.objects[name]? = some held)
    (hv : replicaVersion held = some v) (h : w < v) : p.heldIsNewer name (some w) = true := by
  simp [ReplicaPartition.heldIsNewer, hheld, hv, replicaVersionIsNewer, h]

theorem staleUpsert_of_le {encoded : ResourceObject V S T} {fence : Timestamp}
    (hobject : p.objects[encoded.metadata.name]? = none)
    (hfence : p.syncedAtByName[encoded.metadata.name]? = some fence) (h : syncedAt ≤ fence) :
    p.staleUpsert k encoded syncedAt = true := by
  unfold ReplicaPartition.staleUpsert
  rw [hobject, hfence]
  rcases lt_or_eq_of_le h with hlt | heq
  · simp [hlt]
  · simp [heq]

/-- A body that is put in is not below a deletion of its name. -/
theorem Fenced.le_of_put (hs : Fenced k s) (he : e.upserted = some o)
    (horder : s.InOrder (.event e syncedAt now))
    (hput : ¬ RefusesUpsert k s.partition o.stripped syncedAt) (hv : (e.name, v) ∈ s.deleted)
    (hw : e.version = some w) : v ≤ w := by
  obtain ⟨hname, hversion⟩ := of_upserted he
  by_contra hlt
  rw [not_le] at hlt
  apply hput
  cases hheld : s.partition.objects[e.name]? with
  | some held =>
    obtain ⟨u, hu, hvu⟩ := hs.newer e.name v hv held hheld
    refine .inr (Or.inl ?_)
    rw [← hname, ← hversion, hw]
    exact heldIsNewer_of_lt hheld hu (lt_of_lt_of_le hlt hvu)
  | none =>
    obtain ⟨fence, hfence⟩ := Option.isSome_iff_exists.mp (hs.fence e.name v hv)
    have hle := horder o he v w hv hw hlt hheld fence hfence
    rw [hname] at hheld hfence
    exact .inr (Or.inr (staleUpsert_of_le hheld hfence hle))

theorem record_of_upserted (he : e.upserted = some o) (p : ReplicaPartition V S T) :
    s.record e p = s.deleted := by
  unfold Deletions.record
  rw [he]

theorem mem_record (h : (name, v) ∈ s.record e p) :
    (name, v) ∈ s.deleted ∨ (name = e.name ∧ p.objects[e.name]? = none) := by
  unfold Deletions.record at h
  split at h
  · split at h
    · exact .inl h
    next hheld =>
      rcases List.mem_cons.mp h with heq | h
      · refine .inr ⟨congrArg Prod.fst heq, ?_⟩
        rw [Std.ExtTreeMap.contains_eq_isSome_getElem?] at hheld
        exact Option.not_isSome_iff_eq_none.mp hheld
      · exact .inl h
  · exact .inl h

theorem isSome_of_stale {version : Option Nat} (hobject : p.objects[name]? = none)
    (h : p.heldIsNewer name version = true ∨ p.staleDelete name syncedAt = true) :
    p.syncedAtByName[name]?.isSome = true := by
  rcases h with h | h
  · simp [ReplicaPartition.heldIsNewer, hobject] at h
  · unfold ReplicaPartition.staleDelete at h
    cases hfence : p.syncedAtByName[name]? with
    | none => simp [hfence] at h
    | some fence => rfl

theorem Fenced.effect (hs : Fenced k s) (horder : s.InOrder (.event e syncedAt now))
    (hw : e.version = some w) {p' : ReplicaPartition V S T}
    (heffect : EventEffect k originRoot s.partition e syncedAt p') :
    Fenced k ⟨p', s.record e p'⟩ := by
  have hindexed := heffect.tracks (tracks_digests k.kind) hs.indexed
  cases heffect with
  | refused he _ quarantines =>
    rw [record_of_upserted he]
    exact ⟨hs.indexed, hs.fence, hs.newer⟩
  | @put o he hput kind =>
    obtain ⟨hname, hversion⟩ := of_upserted he
    rw [record_of_upserted he]
    refine ⟨hindexed, ?_, ?_⟩
    · intro name v hmem
      simp only [ReplicaPartition.put, Std.ExtTreeMap.getElem?_insert]
      split
      · rfl
      · exact hs.fence name v hmem
    · intro name v hmem body hbody
      rcases BTreeMap.of_lookup_insert hbody with ⟨rfl, rfl⟩ | ⟨-, hbody⟩
      · rw [← hname] at hmem
        exact ⟨w, hversion ▸ hw, hs.le_of_put he horder hput hmem hw⟩
      · exact hs.newer name v hmem body hbody
  | stale he hstale =>
    refine ⟨hs.indexed, ?_, ?_⟩
    · intro name v hmem
      rcases mem_record hmem with hmem | ⟨rfl, hobject⟩
      · exact hs.fence name v hmem
      · exact isSome_of_stale hobject hstale
    · intro name v hmem body hbody
      rcases mem_record hmem with hmem | ⟨rfl, hobject⟩
      · exact hs.newer name v hmem body hbody
      · exact absurd (hobject.symm.trans hbody) (by simp)
  | @removed he removed hremoved _ _ =>
    refine ⟨hindexed, ?_, ?_⟩
    · intro name v hmem
      simp only [ReplicaPartition.remove, Std.ExtTreeMap.getElem?_insert,
        Std.compare_eq_iff_eq]
      split
      next => rfl
      next hne =>
        rcases mem_record hmem with hmem | ⟨hname, -⟩
        · exact hs.fence name v hmem
        · exact absurd (hremoved.trans hname.symm) hne
    · intro name v hmem body hbody
      rcases mem_record hmem with hmem | ⟨rfl, hobject⟩
      · exact hs.newer name v hmem body (BTreeMap.of_lookup_erase hbody).2
      · exact absurd (hobject.symm.trans hbody) (by simp)

theorem fenced_start (hindexed : Indexed k p) : Fenced k (⟨p, []⟩ : Deletions V S T) :=
  ⟨hindexed, fun _ _ h => absurd h List.not_mem_nil, fun _ _ h => absurd h List.not_mem_nil⟩

variable [DecidableEq V] [DecidableEq S] [DecidableEq T]

/-- **One operation keeps the fences.** -/
theorem Fenced.apply (hs : Fenced k s) {op : ReplicaOp V S T} (hnumeric : op.Numeric)
    (horder : s.InOrder op) : Fenced k (s.apply k originRoot ns op) := by
  cases op with
  | event e syncedAt now =>
    obtain ⟨w, hw⟩ := Option.isSome_iff_exists.mp hnumeric
    rcases applyEvent_cases k originRoot s.partition e syncedAt now with
      ⟨err, h⟩ | ⟨p', h, heffect⟩
    · have happly : s.apply k originRoot ns (.event e syncedAt now) = s := by
        simp only [Deletions.apply, h]
      rw [happly]
      exact hs
    · have happly : s.apply k originRoot ns (.event e syncedAt now) = ⟨p', s.record e p'⟩ := by
        simp only [Deletions.apply, h]
      rw [happly]
      exact hs.effect horder hw heffect
  | replaceBucket leaf listed syncedAt now =>
    cases h : Replica.replaceBucket k originRoot ns s.partition leaf listed syncedAt now with
    | error err =>
      have happly : s.apply k originRoot ns (.replaceBucket leaf listed syncedAt now) = s := by
        simp only [Deletions.apply, h]
      rw [happly]
      exact hs
    | ok p' =>
      have happly : s.apply k originRoot ns (.replaceBucket leaf listed syncedAt now) =
          ⟨p', s.deleted⟩ := by
        simp only [Deletions.apply, h]
      rw [happly]
      obtain ⟨hcovered, h⟩ := replaceBucket_eq_ok h
      obtain ⟨hnodup, horder⟩ := horder
      refine ⟨tracks_replaceReplicas (tracks_digests k.kind) hs.indexed h hnodup, ?_, ?_⟩
      · intro name v hmem
        obtain ⟨x, rfl, -, hsynced⟩ := replaceReplicas_lookup h hnodup name
        rw [hsynced]
        exact isSome_syncedAt_settle _ _ (hs.fence name v hmem)
      · intro name v hmem body hbody
        rcases replaceBucket_lookup hs.indexed h hnodup hcovered hbody with
          hheld | ⟨o, ho, rfl, rfl, hkept⟩
        · exact hs.newer name v hmem body hheld
        · obtain ⟨w, hw⟩ := Option.isSome_iff_exists.mp (hnumeric o ho)
          refine ⟨w, hw, ?_⟩
          cases hheld : s.partition.objects[o.metadata.name]? with
          | none => exact horder o ho v w hmem hw hheld
          | some held =>
            obtain ⟨u, hu, hvu⟩ := hs.newer _ v hmem held hheld
            have hnot := hkept held hheld
            unfold replicaBodyIsNewer at hnot
            rw [hu, show replicaVersion o.stripped = some w from hw] at hnot
            simp only [replicaVersionIsNewer, decide_eq_false_iff_not, not_lt] at hnot
            exact hvu.trans hnot
  | moveCursor cursor => exact ⟨hs.indexed, hs.fence, hs.newer⟩

theorem Fenced.runAll {ops : List (ReplicaOp V S T)} (hs : Fenced k s)
    (hnumeric : ∀ op ∈ ops, op.Numeric) (horder : s.AllInOrder k originRoot ns ops) :
    Fenced k (s.runAll k originRoot ns ops) := by
  induction ops generalizing s with
  | nil => exact hs
  | cons op ops ih =>
    obtain ⟨hop, hrest⟩ := horder
    exact ih (hs.apply (hnumeric op List.mem_cons_self) hop)
      (fun op' h => hnumeric op' (List.mem_cons_of_mem op h)) hrest

/-- **A deleted name never shows a version below its deletion**, over every
sequence of operations that are in order. -/
theorem runAll_deleted (k : ReplicaKind V S T) (originRoot : NodeId) (ns : String)
    (p : ReplicaPartition V S T) (hindexed : Indexed k p) (ops : List (ReplicaOp V S T))
    (hnumeric : ∀ op ∈ ops, op.Numeric)
    (horder : Deletions.AllInOrder k originRoot ns ⟨p, []⟩ ops) (name : String) (v : Nat)
    (hdeleted : (name, v) ∈ (Deletions.runAll k originRoot ns ⟨p, []⟩ ops).deleted)
    (body : ResourceObject V S T)
    (hbody : (Deletions.runAll k originRoot ns ⟨p, []⟩ ops).partition.objects[name]? = some body) :
    ∃ w, replicaVersion body = some w ∧ v ≤ w := by
  have hrun : Fenced k (Deletions.runAll k originRoot ns ⟨p, []⟩ ops) :=
    (fenced_start hindexed).runAll hnumeric horder
  exact hrun.newer name v hdeleted body hbody

/-! ### A deleted event -/

def addSync (version : Nat) (syncedAt : Timestamp) : ReplicaOp Unit EventTree Unit :=
  .event (.added (eventObject "sync" version "held")) syncedAt 100

def deleteSync (version : Nat) (syncedAt : Timestamp) : ReplicaOp Unit EventTree Unit :=
  .event (.deleted (eventObject "sync" version "held")) syncedAt 100

/-- An older write that left before the deletion is kept out; a newer one is not. -/
def fencedOps : List (ReplicaOp Unit EventTree Unit) :=
  [addSync 3 10, deleteSync 5 20, addSync 3 15, addSync 7 30]

def afterDeletion : Deletions Unit EventTree Unit :=
  Deletions.runAll eventReplicas "iad" "flotilla" ⟨{}, []⟩ [addSync 3 10, deleteSync 5 20]

theorem fencedOps_in_order :
    Deletions.AllInOrder eventReplicas "iad" "flotilla" ⟨{}, []⟩ fencedOps := by
  have hdeleted' : (afterDeletion.apply eventReplicas "iad" "flotilla" (addSync 3 15)).deleted =
      [("sync", 5)] := by decide +kernel
  refine ⟨?_, ?_, ?_, ?_, trivial⟩
  · intro o _ v w hv
    exact absurd hv List.not_mem_nil
  · intro o he
    cases he
  · intro o _ v w _ _ _ _ fence hf
    have hf' : afterDeletion.partition.syncedAtByName["sync"]? = some fence := hf
    cases hf'
    decide
  · intro o _ v w hv hw hlt
    have hv' : ("sync", v) ∈
        (afterDeletion.apply eventReplicas "iad" "flotilla" (addSync 3 15)).deleted := hv
    rw [hdeleted'] at hv'
    have hv5 : v = 5 := by simpa using hv'
    have hw7 : some 7 = some w := hw
    cases hw7
    omega

theorem runAll_deleted_recreated :
    ∃ body : ResourceObject Unit EventTree Unit,
      (Deletions.runAll eventReplicas "iad" "flotilla" ⟨{}, []⟩
        fencedOps).partition.objects["sync"]?
        = some body ∧ ∃ w, replicaVersion body = some w ∧ 5 ≤ w := by
  have hbody : (Deletions.runAll eventReplicas "iad" "flotilla" ⟨{}, []⟩
      fencedOps).partition.objects["sync"]? = some (eventObject "sync" 7 "held") := by
    decide +kernel
  refine ⟨_, hbody, runAll_deleted eventReplicas "iad" "flotilla" {} ?_ fencedOps ?_
    fencedOps_in_order "sync" 5 (by decide +kernel) _ hbody⟩
  · exact digests_empty _
  · intro op hop
    simp only [fencedOps, List.mem_cons, List.not_mem_nil, or_false] at hop
    rcases hop with rfl | rfl | rfl | rfl <;> decide +kernel

/-- A relay stamped after the deletion brings the version before it back. -/
theorem runAll_resurrects :
    let s := Deletions.runAll eventReplicas "iad" "flotilla" ⟨{}, []⟩
      [addSync 3 10, deleteSync 5 20, addSync 3 30]
    ("sync", 5) ∈ s.deleted ∧
      s.partition.objects["sync"]? = some (eventObject "sync" 3 "held") ∧
      replicaVersion (eventObject "sync" 3 "held") = some 3 := by
  decide +kernel

end Flotilla.Replica
