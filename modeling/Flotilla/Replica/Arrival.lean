import Flotilla.Replica.Partition
import Flotilla.Lib.Register

/-!
# Arrival orders of one object

The bodies of one object reach a replica on several paths, in any order and
under any sync times.  For added and modified events of a name the replica has
never seen, the partition is a register of that name: an event is put in when
its body passes the kind's checks, is no older than the body held and comes
later in sync time, a tie going to the larger printed body.

`deliver_slot` is that refinement.  The result over all arrival orders is the
register's, `deliverAll_highest_iff`: the body of the highest version is held in
the end for every order exactly when its own sync time is the latest too.
-/

namespace Flotilla.Replica

open Lib
open Memory

variable {V S T : Type}

/-- One call of `apply_replica` with an added or modified body of a numeric version. -/
structure Arrival (V S T : Type) where
  modified : Bool
  object : ResourceObject V S T
  version : Nat
  numeric : replicaVersion object = some version
  syncedAt : Timestamp
  now : Timestamp

namespace Arrival

def kind (a : Arrival V S T) : StoredReplicaEventKind :=
  if a.modified then .modified else .added

def name (a : Arrival V S T) : String := a.object.metadata.name

def body (a : Arrival V S T) : ResourceObject V S T := a.object.stripped

/-- The body encodes and passes the kind's checks. -/
def Admitted (k : ReplicaKind V S T) (a : Arrival V S T) : Prop :=
  k.kind.serializes a.object = .ok () ∧ k.valid a.body = true

/-- Later in sync time, a tie going to the larger printed body. -/
def Later (k : ReplicaKind V S T) (a b : Arrival V S T) : Prop :=
  b.syncedAt < a.syncedAt ∨ (b.syncedAt = a.syncedAt ∧ k.text b.body < k.text a.body)

/-- The body replaces the one held. -/
def Replaces (k : ReplicaKind V S T) (a b : Arrival V S T) : Prop :=
  b.version ≤ a.version ∧ Later k a b

theorem replicaVersion_body (a : Arrival V S T) : replicaVersion a.body = some a.version :=
  a.numeric

end Arrival

variable [DecidableEq V] [DecidableEq S] [DecidableEq T]

def deliver (k : ReplicaKind V S T) (originRoot : NodeId) (p : ReplicaPartition V S T)
    (a : Arrival V S T) : ReplicaPartition V S T :=
  (applyReplica k originRoot p a.kind a.object a.syncedAt a.now).1

def deliverAll (k : ReplicaKind V S T) (originRoot : NodeId) (p : ReplicaPartition V S T)
    (arrivals : List (Arrival V S T)) : ReplicaPartition V S T :=
  arrivals.foldl (deliver k originRoot) p

/-! ### The partition as a register of one name -/

/-- The name holds this arrival, or was never seen. -/
def Slot (p : ReplicaPartition V S T) (name : String) (held : Option (Arrival V S T)) : Prop :=
  p.objects[name]? = held.map Arrival.body ∧
    p.syncedAtByName[name]? = held.map Arrival.syncedAt

variable {k : ReplicaKind V S T} {originRoot : NodeId} {p : ReplicaPartition V S T}
  {name : String} {a top : Arrival V S T} {held : Option (Arrival V S T)}

theorem deliver_eq_upsert (h : k.kind.serializes a.object = .ok ()) :
    deliver k originRoot p a =
      upsertReplica k originRoot p a.kind a.body a.syncedAt a.now := by
  have hencode : encodeObject k.kind a.object = .ok a.body := by
    unfold encodeObject
    rw [h]
    rfl
  unfold deliver applyReplica
  rw [hencode]
  unfold Arrival.kind
  cases a.modified <;> rfl

theorem deliver_of_error {e : ResourceError} (h : k.kind.serializes a.object = .error e) :
    deliver k originRoot p a = p := by
  have hencode : encodeObject k.kind a.object = .error e := by
    unfold encodeObject
    rw [h]
    rfl
  unfold deliver applyReplica
  rw [hencode]

omit [DecidableEq V] [DecidableEq S] [DecidableEq T] in
theorem refusesUpsert_iff (hslot : Slot p name held) (hname : a.name = name) :
    RefusesUpsert k p a.body a.syncedAt ↔
      k.valid a.body = false ∨ ∃ b ∈ held, ¬ a.Replaces k b := by
  obtain ⟨hobject, hsynced⟩ := hslot
  have hbody : a.body.metadata.name = name := hname
  unfold RefusesUpsert ReplicaPartition.heldIsNewer ReplicaPartition.staleUpsert
  rw [hbody, hobject, hsynced]
  refine or_congr Iff.rfl ?_
  cases held with
  | none => simp
  | some b =>
    simp only [Option.map_some, Option.any_some, a.replicaVersion_body, b.replicaVersion_body,
      replicaVersionIsNewer, decide_eq_true_eq, Option.mem_def, Option.some.injEq,
      exists_eq_left', Arrival.Replaces, Arrival.Later, not_and_or, not_or, not_le, not_lt]
    refine or_congr Iff.rfl ?_
    by_cases hlt : a.syncedAt < b.syncedAt
    · simp [hlt, hlt.le, hlt.ne']
    · by_cases heq : b.syncedAt = a.syncedAt
      · simp [heq]
      · have hgt : b.syncedAt < a.syncedAt := lt_of_le_of_ne (not_lt.mp hlt) heq
        simp [hlt, heq, hgt]

theorem deliver_slot (hslot : Slot p name held) (hname : a.name = name) :
    Slot (deliver k originRoot p a) name
      (Register.step (Arrival.Admitted k) (Arrival.Replaces k) held a) := by
  cases hserializes : k.kind.serializes a.object with
  | error e =>
    rw [deliver_of_error hserializes, Register.step_neg]
    · exact hslot
    · rintro ⟨⟨h, -⟩, -⟩
      rw [hserializes] at h
      cases h
  | ok _ =>
    rw [deliver_eq_upsert hserializes]
    rcases upsertReplica_cases k originRoot p a.kind a.body a.syncedAt a.now with
      ⟨hrefuses, _, hresult⟩ | ⟨hrefuses, hresult⟩
    · rw [hresult, Register.step_neg]
      · exact hslot
      · rintro ⟨⟨-, hvalid⟩, hreplaces⟩
        rcases (refusesUpsert_iff hslot hname).mp hrefuses with h | ⟨b, hb, h⟩
        · exact Bool.false_ne_true (h.symm.trans hvalid)
        · exact h (hreplaces b hb)
    · rw [refusesUpsert_iff hslot hname] at hrefuses
      push Not at hrefuses
      obtain ⟨hinvalid, hreplaces⟩ := hrefuses
      have hvalid : k.valid a.body = true := Bool.not_eq_false _ ▸ hinvalid
      rw [hresult, Register.step_pos ⟨hserializes, hvalid⟩ hreplaces]
      have hbody : a.body.metadata.name = name := hname
      constructor <;> simp [ReplicaPartition.put, hbody]

theorem deliverAll_slot {arrivals : List (Arrival V S T)} (hslot : Slot p name held)
    (hname : ∀ a ∈ arrivals, a.name = name) :
    Slot (deliverAll k originRoot p arrivals) name
      (Register.run (Arrival.Admitted k) (Arrival.Replaces k) held arrivals) := by
  induction arrivals generalizing p held with
  | nil => exact hslot
  | cons a arrivals ih =>
    exact ih (deliver_slot hslot (hname a List.mem_cons_self))
      fun b hb => hname b (List.mem_cons_of_mem a hb)

/-! ### Every arrival order -/

omit [DecidableEq V] [DecidableEq S] [DecidableEq T] in
theorem eq_of_body_eq {arrivals : List (Arrival V S T)}
    (hversions : (arrivals.map (·.version)).Nodup)
    {a b : Arrival V S T} (ha : a ∈ arrivals) (hb : b ∈ arrivals) (h : a.body = b.body) :
    a = b := by
  have hversion : some a.version = some b.version := by
    rw [← a.replicaVersion_body, ← b.replicaVersion_body, h]
  exact List.inj_on_of_nodup_map hversions ha hb (Option.some.inj hversion)

/-- **The body of the highest version is held for every arrival order** exactly
when it passes the checks and every other body that does was synced earlier, or
at the same time with a smaller text. -/
theorem deliverAll_highest_iff (k : ReplicaKind V S T) (originRoot : NodeId)
    (p : ReplicaPartition V S T) (name : String) (arrivals : List (Arrival V S T))
    (top : Arrival V S T) (hobject : p.objects[name]? = none)
    (hsynced : p.syncedAtByName[name]? = none) (hname : ∀ a ∈ arrivals, a.name = name)
    (hversions : (arrivals.map (·.version)).Nodup) (htop : top ∈ arrivals)
    (hhighest : ∀ a ∈ arrivals, a.version ≤ top.version) :
    (∀ order : List (Arrival V S T), order.Perm arrivals →
      (deliverAll k originRoot p order).objects[name]? = some top.body) ↔
    top.Admitted k ∧ ∀ a ∈ arrivals, a ≠ top → a.Admitted k → top.Later k a := by
  have hslot : Slot p name none := ⟨hobject, hsynced⟩
  have hregister : ∀ order, order.Perm arrivals →
      ((deliverAll k originRoot p order).objects[name]? = some top.body ↔
        Register.run (Arrival.Admitted k) (Arrival.Replaces k) none order = some top) := by
    intro order horder
    have hrun : Slot (deliverAll k originRoot p order) name
        (Register.run (Arrival.Admitted k) (Arrival.Replaces k) none order) :=
      deliverAll_slot hslot fun a ha => hname a (horder.mem_iff.mp ha)
    rw [hrun.1]
    constructor
    · intro h
      obtain ⟨held, hheld, hbody⟩ := Option.map_eq_some_iff.mp h
      have hmem := horder.mem_iff.mp (Register.mem_of_run hheld).1
      rw [hheld, eq_of_body_eq hversions hmem htop hbody]
    · intro h
      rw [h]
      rfl
  have hlower : ∀ a ∈ arrivals, a ≠ top → a.version < top.version := by
    intro a ha hne
    refine lt_of_le_of_ne (hhighest a ha) fun h => hne ?_
    exact List.inj_on_of_nodup_map hversions ha htop h
  calc
    _ ↔ ∀ order : List (Arrival V S T), order.Perm arrivals →
        Register.run (Arrival.Admitted k) (Arrival.Replaces k) none order = some top :=
      forall₂_congr hregister
    _ ↔ _ := Register.run_eq_some_iff hversions.of_map htop
    _ ↔ _ := by
      refine and_congr Iff.rfl (forall₄_congr fun a ha hne hok => ?_)
      have hlt := hlower a ha hne
      constructor
      · exact fun h => h.1.2
      · exact fun h => ⟨⟨hlt.le, h⟩, fun hback => absurd hback.1 (not_le.mpr hlt)⟩

/-- The event `sync` at a version and a sync time. -/
def syncArrival (version : Nat) (hversion : version ≤ u64Max) (syncedAt : Timestamp) :
    Arrival Unit EventTree Unit where
  modified := true
  object := eventObject "sync" version "held"
  version
  numeric := parseU64_toString hversion
  syncedAt
  now := 100

def firstSync (syncedAt : Timestamp) : Arrival Unit EventTree Unit :=
  syncArrival 1 (by decide) syncedAt

def secondSync (syncedAt : Timestamp) : Arrival Unit EventTree Unit :=
  syncArrival 2 (by decide) syncedAt

/-- Two versions synced in their order are in order however they arrive. -/
theorem deliverAll_highest_iff_in_order :
    (firstSync 10).version < (secondSync 20).version ∧
      ∀ order : List (Arrival Unit EventTree Unit), order.Perm [firstSync 10, secondSync 20] →
        (deliverAll eventReplicas "iad" {} order).objects["sync"]? = some (secondSync 20).body := by
  refine ⟨by decide, ?_⟩
  refine (deliverAll_highest_iff eventReplicas "iad" {} "sync" [firstSync 10, secondSync 20]
    (secondSync 20) (by simp) (by simp) ?_ (by decide) (by simp) ?_).mpr ?_
  · simp [firstSync, secondSync, syncArrival, Arrival.name, eventObject]
  · simp [firstSync, secondSync, syncArrival]
  · refine ⟨⟨rfl, rfl⟩, ?_⟩
    intro a ha hne _
    have hfirst : a = firstSync 10 := by simpa [hne] using ha
    rw [hfirst]
    exact .inl (by decide)

/-- The second version, stamped by a slower clock, is refused and the first stays. -/
theorem deliverAll_keeps_older :
    (deliverAll eventReplicas "iad" {} [firstSync 20, secondSync 10]).objects["sync"]? =
        some (firstSync 20).body ∧
      (firstSync 20).version < (secondSync 10).version := by
  decide +kernel

end Flotilla.Replica
