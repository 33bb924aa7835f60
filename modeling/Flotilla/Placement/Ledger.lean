import Flotilla.Lib.Capacity
import Flotilla.Attempt

/-!
# The placement ledger

Hosts hold capacity by dimension and convoys hold caps by class.  A request waits
at the ledger until it is placed: its convoy has a cap for the class and is under
it, the whole shape fits the host's available capacity, and no waiting request of
higher priority fits there.  A lease holds its shape until it is released; a
restart puts the leases of live vessels back.

* `Ledger.available_iff` : what is available on a host is its capacity without the
  shapes leased there, and it can be computed exactly when there is room for them.
* `run_conserved` : over every sequence of operations the leased shapes stay within
  the capacities and, while caps only rise, the leases within the caps.
-/

namespace Flotilla.Placement

open Lib
open Std (ExtTreeMap)
open Engine (U32 one_lt_u32Count)
open Attempt (u32Max)

/-! ### Requests and leases -/

abbrev Host := String

abbrev VesselId := String

abbrev ConvoyId := String

abbrev VesselClass := String

abbrev Dimension := Nat

/-- Units by capacity dimension: a request's shape, or a host's capacity. -/
abbrev Units := BTreeMap Dimension Nat

abbrev Quota := BTreeMap VesselClass U32

/-- One vessel's placement request: a whole multidimensional shape. -/
structure Request where
  convoy : ConvoyId
  vesselClass : VesselClass
  shape : Units
  priority : Nat

/-- A granted placement: the whole request, leased on one host. -/
structure Lease where
  request : Request
  host : Host

/-- What a placement on `host` reads. -/
structure Evidence where
  host : Host
  available : Units
  /-- The other requests waiting for placement. -/
  waiting : List Request
  /-- Leased vessels of the request's convoy and class. -/
  live : Nat
  cap : Nat
  admitted : Bool

inductive PlacementRefusal where
  | wrongState
  | notAdmitted
  | quotaExceeded
  | doesNotFit
  | higherPriorityWaiting
  | missingEvidence
  deriving DecidableEq, Repr

/-- Every dimension of the request's shape is there and holds enough. -/
def fits (request : Request) (available : Units) : Bool :=
  request.shape.toList.all fun entry => available[entry.1]?.any fun free => entry.2 ≤ free

/-- The rule of a placement, checked in its order. -/
def place (request : Request) (evidence : Evidence) : Except PlacementRefusal Lease := do
  refuseIf (¬ evidence.admitted) .notAdmitted
  refuseIf (evidence.live ≥ evidence.cap) .quotaExceeded
  refuseIf (¬ fits request evidence.available) .doesNotFit
  refuseIf (evidence.waiting.any fun waiting =>
    waiting.priority > request.priority ∧ fits waiting evidence.available) .higherPriorityWaiting
  return { request, host := evidence.host }

/-! ### The ledger -/

inductive Vessel where
  | waiting (request : Request)
  | leased (lease : Lease)

inductive LedgerError where
  | unknownVessel (id : VesselId)
  | unknownHost (host : Host)
  | duplicateHost (host : Host)
  | unknownDimension (host : Host) (dimension : Dimension)
  | duplicateRequest (id : VesselId)
  | notWaiting (id : VesselId)
  | notLeased (id : VesselId)
  | capacityUnderflow (host : Host) (dimension : Dimension)
  | refused (refusal : PlacementRefusal)
  deriving DecidableEq, Repr

/-- Host capacities, convoy caps and vessels. -/
structure Ledger where
  hosts : BTreeMap Host Units := ∅
  caps : BTreeMap ConvoyId Quota := ∅
  vessels : BTreeMap VesselId Vessel := ∅

/-- A result, and the ledger after it. -/
abbrev Changed (A : Type) := Except LedgerError A × Ledger

namespace Ledger

variable (l : Ledger)

def addHost (host : Host) (capacity : Units) : Changed Unit :=
  if host ∈ l.hosts then (.error (.duplicateHost host), l)
  else (.ok (), { l with hosts := l.hosts.insert host capacity })

def setCaps (convoy : ConvoyId) (quota : Quota) : Ledger :=
  { l with caps := l.caps.insert convoy quota }

def setCap (convoy : ConvoyId) (vesselClass : VesselClass) (cap : U32) : Ledger :=
  { l with caps := l.caps.insert convoy ((l.caps[convoy]?.getD ∅).insert vesselClass cap) }

def request (id : VesselId) (request : Request) : Changed Unit :=
  if id ∈ l.vessels then (.error (.duplicateRequest id), l)
  else (.ok (), { l with vessels := l.vessels.insert id (.waiting request) })

/-- The live leases, by vessel. -/
def leases : List (VesselId × Lease) :=
  l.vessels.toList.filterMap fun entry => match entry.2 with
    | .leased lease => some (entry.1, lease)
    | .waiting _ => none

/-- The host's capacity less the shapes leased on it. -/
def available (host : Host) : Except LedgerError Units := do
  let capacity ← okOr l.hosts[host]? (.unknownHost host)
  (l.leases.filter fun entry => entry.2.host = host).foldlM (fun free entry =>
    entry.2.request.shape.toList.foldlM
      (Capacity.deduct (.unknownDimension host) (.capacityUnderflow host)) free) capacity

variable (convoy : ConvoyId) (vesselClass : VesselClass)

/-- The convoy's cap for a class; zero when it holds none. -/
def cap : Nat :=
  ((l.caps[convoy]?.bind fun quota => quota[vesselClass]?).map Fin.val).getD 0

/-- How many leases the convoy has in the class. -/
def count : Nat :=
  (l.leases.filter fun entry =>
    entry.2.request.convoy = convoy ∧ entry.2.request.vesselClass = vesselClass).length

/-- Leased vessels of the convoy and class, on any host, as a `u32`. -/
def live : Nat :=
  min (l.count convoy vesselClass) u32Max

def waiting (id : VesselId) : Except LedgerError Request :=
  match l.vessels[id]? with
  | some (.waiting request) => .ok request
  | some (.leased _) => .error (.notWaiting id)
  | none => .error (.unknownVessel id)

/-- The snapshot a placement of waiting vessel `id` on `host` reads. -/
def evidence (id : VesselId) (host : Host) : Except LedgerError Evidence := do
  let request ← l.waiting id
  let available ← l.available host
  let waiting := l.vessels.toList.filterMap fun entry => match entry.2 with
    | .waiting request => if entry.1 ≠ id then some request else none
    | .leased _ => none
  let cap := l.cap request.convoy request.vesselClass
  return {
    host, available, waiting, cap
    live := l.live request.convoy request.vesselClass
    admitted := cap > 0 }

/-- What `place` decides before it changes anything. -/
def granted (id : VesselId) (host : Host) : Except LedgerError Lease := do
  let evidence ← l.evidence id host
  let request ← l.waiting id
  (Placement.place request evidence).mapError .refused

def place (id : VesselId) (host : Host) : Changed Lease :=
  match l.granted id host with
  | .error error => (.error error, l)
  | .ok lease =>
    if id ∈ l.vessels then
      (.ok lease, { l with vessels := l.vessels.insert id (.leased lease) })
    else (.error (.unknownVessel id), l)

def restore (id : VesselId) (lease : Lease) : Changed Unit :=
  if id ∈ l.vessels then (.error (.duplicateRequest id), l)
  else
    let put := { l with vessels := l.vessels.insert id (.leased lease) }
    match put.available lease.host with
    | .error error => (.error error, { put with vessels := put.vessels.erase id })
    | .ok _ => (.ok (), put)

def release (id : VesselId) : Changed Lease :=
  let rest := { l with vessels := l.vessels.erase id }
  match l.vessels[id]? with
  | some (.leased lease) => (.ok lease, rest)
  | some (.waiting request) =>
    (.error (.notLeased id), { rest with vessels := rest.vessels.insert id (.waiting request) })
  | none => (.error (.unknownVessel id), rest)

end Ledger

inductive Op where
  | addHost (host : Host) (capacity : Units)
  | setCaps (convoy : ConvoyId) (quota : Quota)
  | setCap (convoy : ConvoyId) (vesselClass : VesselClass) (cap : U32)
  | request (id : VesselId) (request : Request)
  | place (id : VesselId) (host : Host)
  | restore (id : VesselId) (lease : Lease)
  | release (id : VesselId)

namespace Ledger

def apply (l : Ledger) : Op → Changed Unit
  | .addHost host capacity => l.addHost host capacity
  | .setCaps convoy quota => (.ok (), l.setCaps convoy quota)
  | .setCap convoy vesselClass cap => (.ok (), l.setCap convoy vesselClass cap)
  | .request id request => l.request id request
  | .place id host => ((l.place id host).1.map fun _ => (), (l.place id host).2)
  | .restore id lease => l.restore id lease
  | .release id => ((l.release id).1.map fun _ => (), (l.release id).2)

/-- The ledger after the operations, refused ones among them. -/
def run (l : Ledger) (ops : List Op) : Ledger := ops.foldl (fun l op => (l.apply op).2) l

/-! ### What is leased on a host -/

/-- The shape a vessel holds on a host. -/
def entriesOf (host : Host) : Vessel → List (Dimension × Nat)
  | .leased lease => if lease.host = host then lease.request.shape.toList else []
  | .waiting _ => []

/-- The shapes leased on a host. -/
def entriesOn (l : Ledger) (host : Host) : List (Dimension × Nat) :=
  l.vessels.toList.flatMap fun entry => entriesOf host entry.2

/-- The units of a dimension leased on a host. -/
def leased (l : Ledger) (host : Host) (dimension : Dimension) : Nat :=
  ((l.leases.filter fun entry => entry.2.host = host).map
    fun entry => entry.2.request.shape[dimension]?.getD 0).sum

/-- The host's capacity in a dimension; none on an unknown host. -/
def capacity (l : Ledger) (host : Host) (dimension : Dimension) : Nat :=
  (l.hosts[host]?.bind fun capacity => capacity[dimension]?).getD 0

variable {l : Ledger}

theorem flatMap_leases (host : Host) :
    ((l.leases.filter fun entry => entry.2.host = host).flatMap
      fun entry => entry.2.request.shape.toList) = l.entriesOn host := by
  rw [leases, entriesOn]
  induction l.vessels.toList with
  | nil => rfl
  | cons entry rest ih =>
    obtain ⟨id, vessel⟩ := entry
    cases vessel with
    | waiting request => simpa [entriesOf] using ih
    | leased lease =>
      by_cases hhost : lease.host = host
      · simpa [entriesOf, hhost] using ih
      · simpa [entriesOf, hhost] using ih

theorem leased_eq_total (host : Host) (dimension : Dimension) :
    l.leased host dimension = Capacity.total dimension (l.entriesOn host) := by
  rw [leased, ← flatMap_leases]
  induction l.leases.filter fun entry => entry.2.host = host with
  | nil => rfl
  | cons entry rest ih =>
    rw [List.map_cons, List.sum_cons, List.flatMap_cons, Capacity.total_append,
      Capacity.total_toList, ih]

theorem available_eq (host : Host) :
    l.available host = okOr l.hosts[host]? (.unknownHost host) >>= fun capacity =>
      (l.entriesOn host).foldlM
        (Capacity.deduct (.unknownDimension host) (.capacityUnderflow host)) capacity := by
  rw [available, ← flatMap_leases]
  simp only [foldlM_flatMap]

/-- **What is available is the capacity without the leases there is room for.** -/
theorem available_iff {host : Host} {free : Units} :
    l.available host = .ok free ↔ ∃ capacity, l.hosts[host]? = some capacity ∧
      Capacity.Room capacity (l.entriesOn host) ∧
      free = Capacity.remaining capacity (l.entriesOn host) := by
  rw [available_eq]
  constructor
  · intro h
    obtain ⟨capacity, hcapacity, h⟩ := bind_eq_ok h
    exact ⟨capacity, okOr_eq_ok.mp hcapacity, Capacity.foldlM_deduct_iff.mp h⟩
  · rintro ⟨capacity, hcapacity, hroom⟩
    rw [bind_ok (okOr_eq_ok.mpr hcapacity)]
    exact Capacity.foldlM_deduct_iff.mpr hroom

/-! ### Room on every host -/

/-- Every lease names a known host, and every host has room for the leases on it. -/
structure Fitting (l : Ledger) : Prop where
  known : ∀ (id : VesselId) (lease : Lease), l.vessels[id]? = some (.leased lease) →
    lease.host ∈ l.hosts
  room : ∀ (host : Host) (capacity : Units), l.hosts[host]? = some capacity →
    Capacity.Room capacity (l.entriesOn host)

/-- The ledger without a vessel. -/
def without (l : Ledger) (id : VesselId) : Ledger := { l with vessels := l.vessels.erase id }

/-- The ledger with a vessel put in. -/
def put (l : Ledger) (id : VesselId) (vessel : Vessel) : Ledger :=
  { l with vessels := l.vessels.insert id vessel }

theorem without_of_not_mem {id : VesselId} (h : id ∉ l.vessels) : l.without id = l := by
  rw [without, BTreeMap.erase_eq_self_iff.mpr h]

theorem entriesOn_put (id : VesselId) (vessel : Vessel) (host : Host) :
    ((l.put id vessel).entriesOn host).Perm
      (entriesOf host vessel ++ (l.without id).entriesOn host) :=
  (BTreeMap.toList_insert_perm l.vessels id vessel).flatMap_right _

variable {l' : Ledger} {request : Request} {vessel : Vessel}

theorem entriesOn_of_lookup {id : VesselId} (h : l.vessels[id]? = some vessel) (host : Host) :
    (l.entriesOn host).Perm (entriesOf host vessel ++ (l.without id).entriesOn host) :=
  (BTreeMap.toList_perm_cons h).flatMap_right _

theorem lookup_without {id id' : VesselId} (h : (l.without id).vessels[id']? = some vessel) :
    l.vessels[id']? = some vessel := by
  exact (BTreeMap.of_lookup_erase h).2

theorem Fitting.without (h : Fitting l) (id : VesselId) : Fitting (l.without id) := by
  refine ⟨fun id' lease hid => h.known id' lease (lookup_without hid),
    fun host capacity hhost => ?_⟩
  cases hid : l.vessels[id]? with
  | none =>
    rw [without_of_not_mem (by rw [ExtTreeMap.mem_iff_isSome_getElem?, hid]; simp)]
    exact h.room host capacity hhost
  | some vessel =>
    exact ((h.room host capacity hhost).perm (entriesOn_of_lookup hid host)).of_append

theorem Fitting.put {id : VesselId} (h : Fitting (l.without id))
    (hroom : ∀ lease, vessel = .leased lease → ∃ capacity, l.hosts[lease.host]? = some capacity ∧
      Capacity.Room capacity (lease.request.shape.toList ++ (l.without id).entriesOn lease.host)) :
    Fitting (l.put id vessel) := by
  refine ⟨fun id' lease hid => ?_, fun host capacity hhost => ?_⟩
  · rcases BTreeMap.of_lookup_insert hid with ⟨-, hlease⟩ | ⟨hne, hid⟩
    · obtain ⟨capacity, hcapacity, -⟩ := hroom lease hlease
      exact BTreeMap.mem_of_lookup hcapacity
    · refine h.known id' lease ?_
      rw [Ledger.without, ExtTreeMap.getElem?_erase, if_neg (by simpa using hne)]
      exact hid
  · refine Capacity.Room.perm ?_ (entriesOn_put id vessel host).symm
    have hrest := h.room host capacity hhost
    cases vessel with
    | waiting request => exact hrest
    | leased lease =>
      by_cases heq : lease.host = host
      · subst heq
        obtain ⟨capacity', hcapacity', hroom⟩ := hroom lease rfl
        cases hcapacity'.symm.trans hhost
        rw [entriesOf, if_pos rfl]
        exact hroom
      · rw [entriesOf, if_neg heq]
        exact hrest

theorem fitting_new : Fitting {} :=
  ⟨fun id lease h => by simp at h, fun host capacity h => by simp at h⟩

/-- Nothing is leased on a host that is not there. -/
theorem Fitting.entriesOn_eq_nil (h : Fitting l) {host : Host} (hnew : host ∉ l.hosts) :
    l.entriesOn host = [] := by
  rw [entriesOn, List.flatMap_eq_nil_iff]
  rintro ⟨id, vessel⟩ hmem
  rw [ExtTreeMap.mem_toList_iff_getElem?_eq_some] at hmem
  cases vessel with
  | waiting request => rfl
  | leased lease =>
    refine if_neg fun hhost => hnew ?_
    exact hhost ▸ h.known id lease hmem

theorem Fitting.addHost (h : Fitting l) {host : Host} (hnew : host ∉ l.hosts) (capacity : Units) :
    Fitting { l with hosts := l.hosts.insert host capacity } := by
  refine ⟨fun id lease hid => ExtTreeMap.mem_insert.mpr (.inr (h.known id lease hid)), ?_⟩
  refine BTreeMap.forall_insert ?_ fun host' capacity' _ => h.room host' capacity'
  show Capacity.Room capacity (l.entriesOn host)
  rw [h.entriesOn_eq_nil hnew]
  exact ⟨by simp, fun _ _ _ => Nat.zero_le _⟩

theorem Fitting.leased_le (h : Fitting l) (host : Host) (dimension : Dimension) :
    l.leased host dimension ≤ l.capacity host dimension := by
  rw [leased_eq_total, Ledger.capacity]
  cases hhost : l.hosts[host]? with
  | none =>
    have hnew : host ∉ l.hosts := by
      rw [ExtTreeMap.mem_iff_isSome_getElem?, hhost]
      simp
    rw [h.entriesOn_eq_nil hnew]
    exact Nat.zero_le _
  | some capacity =>
    have hroom := h.room host capacity hhost
    show _ ≤ (capacity[dimension]?).getD 0
    cases hunits : capacity[dimension]? with
    | some units => exact hroom.le dimension units hunits
    | none =>
      refine (Capacity.total_eq_zero fun entry hentry heq => ?_).le
      have hknown := hroom.known entry hentry
      rw [ExtTreeMap.mem_iff_isSome_getElem?, heq, hunits] at hknown
      cases hknown

/-! ### What a placement grants -/

/-- The request that waits, the capacity it fits, and the cap it is under. -/
structure Grants (l : Ledger) (id : VesselId) (lease : Lease) : Prop where
  waits : l.vessels[id]? = some (.waiting lease.request)
  fits : ∃ free, l.available lease.host = .ok free ∧ Placement.fits lease.request free = true
  under : l.live lease.request.convoy lease.request.vesselClass <
    l.cap lease.request.convoy lease.request.vesselClass

theorem waiting_eq_ok {id : VesselId} (h : l.waiting id = .ok request) :
    l.vessels[id]? = some (.waiting request) := by
  rw [waiting] at h
  split at h
  · cases h
    assumption
  · cases h
  · cases h

theorem grants_of_granted {id : VesselId} {host : Host} {lease : Lease}
    (h : l.granted id host = .ok lease) : Grants l id lease ∧ lease.host = host := by
  obtain ⟨evidence, hevidence, h⟩ := bind_eq_ok h
  obtain ⟨request, hrequest, h⟩ := bind_eq_ok h
  obtain ⟨request', hrequest', hevidence⟩ := bind_eq_ok hevidence
  obtain ⟨free, hfree, hevidence⟩ := bind_eq_ok hevidence
  cases hrequest.symm.trans hrequest'
  cases hevidence
  obtain ⟨-, h⟩ := of_refuseIf (mapError_eq_ok h)
  obtain ⟨hunder, h⟩ := of_refuseIf h
  obtain ⟨hfits, h⟩ := of_refuseIf h
  obtain ⟨-, h⟩ := of_refuseIf h
  cases h
  exact ⟨⟨waiting_eq_ok hrequest, ⟨free, hfree, not_not.mp hfits⟩,
    not_le.mp hunder⟩, rfl⟩

theorem place_eq (id : VesselId) (host : Host) :
    (∃ error, l.place id host = (.error error, l)) ∨
      ∃ lease, Grants l id lease ∧ lease.host = host ∧
        l.place id host = (.ok lease, l.put id (.leased lease)) := by
  rw [place]
  cases hgranted : l.granted id host with
  | error error => exact .inl ⟨error, rfl⟩
  | ok lease =>
    obtain ⟨hgrants, hhost⟩ := grants_of_granted hgranted
    refine .inr ⟨lease, hgrants, hhost, ?_⟩
    dsimp only
    rw [if_pos (BTreeMap.mem_of_lookup hgrants.waits)]
    rfl

theorem fits_iff {free : Units} :
    Placement.fits request free = true ↔ ∀ (k : Dimension) (units : Nat),
      request.shape[k]? = some units → ∃ left, free[k]? = some left ∧ units ≤ left := by
  rw [Placement.fits, List.all_eq_true, Prod.forall]
  simp only [ExtTreeMap.mem_toList_iff_getElem?_eq_some, Option.any_eq_true,
    decide_eq_true_eq]

theorem Fitting.grant (h : Fitting l) {id : VesselId} {lease : Lease}
    (hgrants : Grants l id lease) : Fitting (l.put id (.leased lease)) := by
  obtain ⟨free, hfree, hfits⟩ := hgrants.fits
  obtain ⟨capacity, hcapacity, hroom, rfl⟩ := available_iff.mp hfree
  refine (h.without id).put ?_
  rintro _ ⟨⟩
  refine ⟨capacity, hcapacity, ?_⟩
  -- a request that waits holds nothing, so leaving it out changes no host's entries
  have hsame : (l.entriesOn lease.host).Perm ((l.without id).entriesOn lease.host) :=
    entriesOn_of_lookup hgrants.waits lease.host
  exact (hroom.append (fits_iff.mp hfits)).perm (hsame.append_left _)

/-! ### What an operation does -/

/-- An accepted operation. -/
inductive Effect (l : Ledger) : Op → Ledger → Prop where
  | addHost {host capacity} (hnew : host ∉ l.hosts) :
      Effect l (.addHost host capacity) { l with hosts := l.hosts.insert host capacity }
  | setCaps {convoy quota} : Effect l (.setCaps convoy quota) (l.setCaps convoy quota)
  | setCap {convoy vesselClass cap} :
      Effect l (.setCap convoy vesselClass cap) (l.setCap convoy vesselClass cap)
  | request {id request} (hnew : id ∉ l.vessels) :
      Effect l (.request id request) (l.put id (.waiting request))
  | place {id lease} (hgrants : Grants l id lease) :
      Effect l (.place id lease.host) (l.put id (.leased lease))
  | restore {id lease free} (hnew : id ∉ l.vessels)
      (havailable : (l.put id (.leased lease)).available lease.host = .ok free) :
      Effect l (.restore id lease) (l.put id (.leased lease))
  | release {id lease} (hleased : l.vessels[id]? = some (.leased lease)) :
      Effect l (.release id) (l.without id)

/-- An operation is refused and changes nothing, or is accepted. -/
inductive Outcome {A : Type} (l : Ledger) (op : Op) : Changed A → Prop where
  | refused (error : LedgerError) : Outcome l op (.error error, l)
  | accepted (a : A) {l' : Ledger} (h : Effect l op l') : Outcome l op (.ok a, l')

theorem outcome_restore (id : VesselId) (lease : Lease) :
    Outcome l (.restore id lease) (l.restore id lease) := by
  rw [restore]
  split_ifs with hnew
  · exact .refused _
  · dsimp only
    split
    · rename_i error _
      rw [BTreeMap.erase_insert, BTreeMap.erase_eq_self_iff.mpr hnew]
      exact .refused _
    · rename_i havailable
      exact .accepted () (.restore hnew havailable)

theorem outcome_release (id : VesselId) : Outcome l (.release id) (l.release id) := by
  rw [release]
  split
  · rename_i lease hleased
    exact .accepted lease (.release hleased)
  · rename_i request hwaiting
    rw [BTreeMap.insert_erase, BTreeMap.insert_eq_self hwaiting]
    exact .refused _
  · rename_i hnone
    have hnew : id ∉ l.vessels := by
      rw [ExtTreeMap.mem_iff_isSome_getElem?, hnone]
      simp
    rw [BTreeMap.erase_eq_self_iff.mpr hnew]
    exact .refused _

theorem Outcome.map {A B : Type} {op : Op} {changed : Changed A} (h : Outcome l op changed)
    (f : A → B) : Outcome l op (changed.1.map f, changed.2) := by
  cases h with
  | refused error => exact .refused error
  | accepted a h => exact .accepted (f a) h

/-- **Every operation is refused with the ledger unchanged, or has its effect.** -/
theorem outcome_apply (op : Op) : Outcome l op (l.apply op) := by
  cases op with
  | addHost host capacity =>
    rw [apply, addHost]
    split_ifs with hnew
    · exact .refused _
    · exact .accepted () (.addHost hnew)
  | setCaps convoy quota => exact .accepted () .setCaps
  | setCap convoy vesselClass cap => exact .accepted () .setCap
  | request id request =>
    rw [apply, Ledger.request]
    split_ifs with hnew
    · exact .refused _
    · exact .accepted () (.request hnew)
  | place id host =>
    refine Outcome.map ?_ fun _ => ()
    rcases place_eq id host with ⟨error, hplace⟩ | ⟨lease, hgrants, rfl, hplace⟩
    · rw [hplace]
      exact .refused error
    · rw [hplace]
      exact .accepted lease (.place hgrants)
  | restore id lease => exact outcome_restore id lease
  | release id => exact (outcome_release id).map fun _ => ()

theorem Fitting.effect {op : Op} (h : Fitting l) (heffect : Effect l op l') : Fitting l' := by
  cases heffect with
  | addHost hnew => exact h.addHost hnew _
  | setCaps | setCap => exact ⟨h.known, h.room⟩
  | request hnew => exact (h.without _).put nofun
  | place hgrants => exact h.grant hgrants
  | @restore id lease free hnew havailable =>
    refine (h.without _).put ?_
    rintro _ ⟨⟩
    obtain ⟨capacity, hcapacity, hroom, -⟩ := available_iff.mp havailable
    have hentries := entriesOn_put (l := l) id (.leased lease) lease.host
    refine ⟨capacity, hcapacity, hroom.perm (hentries.trans ?_)⟩
    rw [entriesOf, if_pos rfl]
  | release hleased => exact h.without _

theorem Fitting.apply (h : Fitting l) (op : Op) : Fitting (l.apply op).2 := by
  cases houtcome : l.apply op with
  | mk result l' =>
    have hout := outcome_apply (l := l) op
    rw [houtcome] at hout
    cases hout with
    | refused => exact h
    | accepted _ heffect => exact h.effect heffect

theorem Fitting.run (h : Fitting l) (ops : List Op) : Fitting (l.run ops) := by
  induction ops generalizing l with
  | nil => exact h
  | cons op ops ih => exact ih (h.apply op)

/-! ### Leases under their caps -/

/-- A lease of the convoy and class. -/
def counts (convoy : ConvoyId) (vesselClass : VesselClass) : Vessel → Bool
  | .leased lease => lease.request.convoy = convoy ∧ lease.request.vesselClass = vesselClass
  | .waiting _ => false

theorem count_eq (convoy : ConvoyId) (vesselClass : VesselClass) :
    l.count convoy vesselClass =
      l.vessels.toList.countP fun entry => counts convoy vesselClass entry.2 := by
  rw [count, leases]
  induction l.vessels.toList with
  | nil => rfl
  | cons entry rest ih =>
    obtain ⟨id, vessel⟩ := entry
    cases vessel with
    | waiting request => simpa [counts] using ih
    | leased lease =>
      rw [List.countP_cons, ← ih]
      by_cases hlease : lease.request.convoy = convoy ∧ lease.request.vesselClass = vesselClass
      · simp [counts, hlease]
      · simp [counts, hlease]

theorem count_put (id : VesselId) (vessel : Vessel) (convoy : ConvoyId)
    (vesselClass : VesselClass) :
    (l.put id vessel).count convoy vesselClass =
      (l.without id).count convoy vesselClass +
        if counts convoy vesselClass vessel then 1 else 0 := by
  rw [count_eq, count_eq, put, (BTreeMap.toList_insert_perm l.vessels id vessel).countP_eq,
    List.countP_cons]
  rfl

theorem count_without_le (id : VesselId) (convoy : ConvoyId) (vesselClass : VesselClass) :
    (l.without id).count convoy vesselClass ≤ l.count convoy vesselClass := by
  cases hid : l.vessels[id]? with
  | none =>
    rw [without_of_not_mem (by rw [ExtTreeMap.mem_iff_isSome_getElem?, hid]; simp)]
  | some vessel =>
    rw [count_eq, count_eq, (BTreeMap.toList_perm_cons hid).countP_eq, List.countP_cons]
    exact Nat.le_add_right _ _

/-- The leases of every convoy and class are within its cap. -/
def Capped (l : Ledger) : Prop :=
  ∀ convoy vesselClass, l.count convoy vesselClass ≤ l.cap convoy vesselClass

theorem cap_le (convoy : ConvoyId) (vesselClass : VesselClass) :
    l.cap convoy vesselClass ≤ u32Max := by
  rw [cap]
  cases (l.caps[convoy]?.bind fun quota => quota[vesselClass]?) with
  | none => exact Nat.zero_le _
  | some cap => exact Nat.le_pred_of_lt cap.isLt

/-- The operation restores nothing and lowers no cap. -/
def Raises (l : Ledger) (op : Op) : Prop :=
  (∀ id lease, op ≠ .restore id lease) ∧
    ∀ convoy vesselClass, l.cap convoy vesselClass ≤ (l.apply op).2.cap convoy vesselClass

/-- Every operation of the run restores nothing and lowers no cap. -/
def Rising (l : Ledger) : List Op → Prop
  | [] => True
  | op :: ops => l.Raises op ∧ Rising (l.apply op).2 ops

theorem Capped.grant (h : Capped l) {id : VesselId} {lease : Lease} (hgrants : Grants l id lease) :
    Capped (l.put id (.leased lease)) := by
  intro convoy vesselClass
  have hcount := count_put (l := l) id (.leased lease) convoy vesselClass
  have hless := count_without_le (l := l) id convoy vesselClass
  have hcap := h convoy vesselClass
  show _ ≤ l.cap convoy vesselClass
  rw [hcount]
  split_ifs with hcounts
  · obtain ⟨rfl, rfl⟩ := of_decide_eq_true hcounts
    have hunder := hgrants.under
    have hle := cap_le (l := l) lease.request.convoy lease.request.vesselClass
    rw [live] at hunder
    omega
  · omega

theorem Capped.effect {op : Op} (h : Capped l) (heffect : Effect l op l')
    (hrestore : ∀ id lease, op ≠ .restore id lease)
    (hcaps : ∀ convoy vesselClass, l.cap convoy vesselClass ≤ l'.cap convoy vesselClass) :
    Capped l' := by
  cases heffect with
  | addHost => exact h
  | setCaps | setCap => exact fun convoy vesselClass =>
      (h convoy vesselClass).trans (hcaps convoy vesselClass)
  | request hnew =>
    intro convoy vesselClass
    rw [count_put, without_of_not_mem hnew]
    exact h convoy vesselClass
  | place hgrants => exact h.grant hgrants
  | restore => exact absurd rfl (hrestore _ _)
  | release hleased => exact fun convoy vesselClass =>
      (count_without_le _ convoy vesselClass).trans (h convoy vesselClass)

theorem Capped.run (h : Capped l) {ops : List Op} (hrising : Rising l ops) :
    Capped (l.run ops) := by
  induction ops generalizing l with
  | nil => exact h
  | cons op ops ih =>
    obtain ⟨⟨hrestore, hcaps⟩, hrising⟩ := hrising
    refine ih ?_ hrising
    show Capped (l.apply op).2
    have hout := outcome_apply (l := l) op
    generalize l.apply op = changed at hout hcaps
    cases hout with
    | refused => exact h
    | accepted _ heffect => exact h.effect heffect hrestore hcaps

/-! ### Every run -/

/-- **The leased shapes stay within the hosts' capacities, refused operations change nothing, and
while caps only rise and nothing is restored the leases stay within the caps.** -/
theorem run_conserved (ops : List Op) :
    (∀ host dimension, (run {} ops).leased host dimension ≤ (run {} ops).capacity host dimension) ∧
    (∀ (host : Host) (capacity : Units), (run {} ops).hosts[host]? = some capacity →
      (run {} ops).available host = .ok (capacity.map fun dimension units =>
        units - (run {} ops).leased host dimension)) ∧
    (∀ op error, ((run {} ops).apply op).1 = .error error →
      ((run {} ops).apply op).2 = run {} ops) ∧
    (Rising {} ops → ∀ convoy vesselClass,
      (run {} ops).count convoy vesselClass ≤ (run {} ops).cap convoy vesselClass) := by
  have hfitting : Fitting (run {} ops) := fitting_new.run ops
  refine ⟨hfitting.leased_le, ?_, ?_, ?_⟩
  · intro host capacity hhost
    refine available_iff.mpr ⟨capacity, hhost, hfitting.room host capacity hhost, ?_⟩
    simp only [Capacity.remaining, leased_eq_total]
  · intro op error herror
    have hout := outcome_apply (l := run {} ops) op
    generalize (run {} ops).apply op = changed at hout herror
    cases hout with
    | refused => rfl
    | accepted => cases herror
  · intro hrising
    exact Capped.run (fun _ _ => Nat.zero_le _) hrising

/-- One vessel of three units on a host of four, under a cap of one. -/
def oneVessel : List Op :=
  let small : Request :=
    { convoy := "survey", vesselClass := "small", shape := ExtTreeMap.ofList [(0, 3)] compare,
      priority := 1 }
  [.addHost "dock" (ExtTreeMap.ofList [(0, 4)] compare),
    .setCap "survey" "small" ⟨1, one_lt_u32Count⟩,
    .request "v1" small, .place "v1" "dock"]

/-- Only the cap operations change caps. -/
theorem caps_apply (op : Op) (hcaps : ∀ convoy quota, op ≠ .setCaps convoy quota)
    (hcap : ∀ convoy vesselClass cap, op ≠ .setCap convoy vesselClass cap) :
    (l.apply op).2.caps = l.caps := by
  have hout := outcome_apply (l := l) op
  generalize l.apply op = changed at hout
  cases hout with
  | refused => rfl
  | accepted _ heffect =>
    cases heffect with
    | setCaps => exact absurd rfl (hcaps _ _)
    | setCap => exact absurd rfl (hcap _ _ _)
    | addHost | request | place | restore | release => rfl

theorem raises_of_caps {op : Op} (hrestore : ∀ id lease, op ≠ .restore id lease)
    (hcaps : (l.apply op).2.caps = l.caps) : l.Raises op :=
  ⟨hrestore, fun convoy vesselClass => by rw [cap, cap, hcaps]⟩

theorem run_conserved_oneVessel :
    (run {} oneVessel).count "survey" "small" = 1 ∧
      (run {} oneVessel).leased "dock" 0 = 3 ∧ (run {} oneVessel).capacity "dock" 0 = 4 ∧
      ∀ convoy vesselClass,
        (run {} oneVessel).count convoy vesselClass ≤
          (run {} oneVessel).cap convoy vesselClass := by
  refine ⟨by decide +kernel, by decide +kernel, by decide +kernel,
    (run_conserved oneVessel).2.2.2 ⟨?_, ⟨by simp, ?_⟩, ?_, ?_, trivial⟩⟩
  · exact raises_of_caps (by simp) (caps_apply _ (by simp) (by simp))
  · -- no convoy has a cap before the first is set
    intro convoy vesselClass
    simp [cap, apply, addHost]
  · exact raises_of_caps (by simp) (caps_apply _ (by simp) (by simp))
  · exact raises_of_caps (by simp) (caps_apply _ (by simp) (by simp))

end Ledger

end Flotilla.Placement
