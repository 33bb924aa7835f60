import Flotilla.Engine.Machine

/-!
# The convoy machine

A convoy is admitted to deliver what it promises.  Its seats own its promises and
duties; promises are submitted, kept or retracted; a standing convoy, one with a
lifetime duty, rolls over to a next generation.  Admission, gates, effects and
record writes are the code's own, in its order; `convoy` is the machine.

The frozen promise kinds are left out, since nothing here reads them, and so are
the versions of reads.  An address, a vessel class and a reference to a world
value are texts.
-/

namespace Flotilla.Convoy

open Lib
open Engine

/-! ### Names and records -/

abbrev Address := String
abbrev VesselClass := String

/-- Caps on live vessels, by class. -/
abbrev Quota := BTreeMap VesselClass Nat

abbrev PromiseId := U32
abbrev DutyId := Nat

/-- A seat by name within its convoy: its role, and the discriminator among the role's seats. -/
structure SeatName where
  role : String
  seat : String
  deriving DecidableEq, Repr

instance : Ord SeatName :=
  ⟨compareLex (compareOn SeatName.role) (compareOn SeatName.seat)⟩

instance : Std.TransOrd SeatName :=
  inferInstanceAs (Std.TransCmp (compareLex (compareOn SeatName.role) (compareOn SeatName.seat)))

instance : Std.LawfulEqOrd SeatName where
  compare_self := Std.ReflCmp.compare_self
  eq_of_compare := by
    intro a b h
    obtain ⟨hrole, hseat⟩ := compareLex_eq_eq.mp h
    cases a
    cases b
    cases Std.compare_eq_iff_eq.mp hrole
    cases Std.compare_eq_iff_eq.mp hseat
    rfl

/-- One occupied instance of a role in the convoy. -/
structure Seat where
  role : String
  seat : String
  parent : Option SeatName
  supervisedBy : Address
  retired : Bool := false
  replacements : Nat := 0
  deriving DecidableEq

def Seat.name (s : Seat) : SeatName := ⟨s.role, s.seat⟩

inductive PromiseSource where
  | template
  | dispatch
  | crew
  deriving DecidableEq, Repr

inductive Progress where
  | pending
  | submitted
  | kept
  | retracted
  deriving DecidableEq, Repr

/-- A value, and when it was entered. -/
structure Stamped (A : Type) where
  value : A
  since : Timestamp
  deriving DecidableEq

/-- A durable reference at a revision, and the seat that submitted it. -/
structure Submission where
  address : Address
  revision : String
  by_ : SeatName
  deriving DecidableEq

structure Promise where
  id : PromiseId
  label : String
  kind : String
  target : Address
  source : PromiseSource
  owner : SeatName
  progress : Stamped Progress
  submissions : Records Submission
  deriving DecidableEq

/-- Pending or Submitted. -/
def Promise.isOpen (p : Promise) : Bool :=
  match p.progress.value with
  | .pending | .submitted => true
  | .kept | .retracted => false

/-- How long a duty lasts. -/
inductive DutyScope where
  | lifetime
  | whileOpen (promises : BTreeSet PromiseId)
  deriving DecidableEq

structure Terms where
  replyWithin : Option Nat := none
  heartbeat : Option Nat := none
  note : Option String := none
  deriving DecidableEq

structure Duty where
  owner : SeatName
  scope : DutyScope
  terms : Terms := {}
  deriving DecidableEq

/-- What admission fixes, and the records that edges change. -/
structure ConvoySpec where
  project : Address
  promiseFloor : Nat
  priority : Nat
  duties : BTreeMap DutyId Duty
  seats : Records Seat
  promises : Records Promise

namespace ConvoySpec

variable (spec : ConvoySpec)

/-- A promise's row, by its id. -/
def promise (id : PromiseId) : Option (Nat × Promise) :=
  spec.promises.find fun p => p.id = id

/-- A seat's row, by its name. -/
def seat (name : SeatName) : Option (Nat × Seat) :=
  spec.seats.find fun s => s.name = name

/-- The promises still Pending or Submitted. -/
def outstanding : BTreeSet PromiseId :=
  Std.ExtTreeSet.ofList
    ((spec.promises.records.filter fun p => p.isOpen).map Promise.id) compare

/-- The lifetime duties not yet retired. -/
def holding (retired : BTreeSet DutyId) : BTreeSet DutyId :=
  Std.ExtTreeSet.ofList
    ((spec.duties.toList.filter fun entry =>
      entry.2.scope = .lifetime ∧ ¬ retired.contains entry.1).map Prod.fst) compare

end ConvoySpec

/-! ### States -/

inductive ConvoyState where
  | opened (quota : Quota) (retired : BTreeSet DutyId)
  | delivered (quota : Quota) (retired : BTreeSet DutyId)
  | abandoned (quota : Quota) (retired : BTreeSet DutyId) (reason : String)

inductive ConvoyLabel where
  | opened
  | delivered
  | abandoned
  deriving DecidableEq, Repr

inductive ConvoyDatum where
  | quota (quota : Quota)
  | duties (retired : BTreeSet DutyId)
  | text (reason : String)
  deriving DecidableEq

namespace ConvoyState

def quota : ConvoyState → Quota
  | .opened quota _ | .delivered quota _ | .abandoned quota _ _ => quota

/-- The lifetime duties retired so far. -/
def retired : ConvoyState → BTreeSet DutyId
  | .opened _ retired | .delivered _ retired | .abandoned _ retired _ => retired

end ConvoyState

instance : StateValue ConvoyState ConvoyLabel ConvoyDatum where
  label
    | .opened _ _ => .opened
    | .delivered _ _ => .delivered
    | .abandoned _ _ _ => .abandoned
  data
    | .opened quota retired => [("quota", .quota quota), ("retired", .duties retired)]
    | .delivered quota retired => [("quota", .quota quota), ("retired", .duties retired)]
    | .abandoned quota retired reason =>
      [("quota", .quota quota), ("retired", .duties retired), ("reason", .text reason)]

/-! ### Requests and edges -/

structure AdmittedPromise where
  label : String
  kind : String
  target : Address
  source : PromiseSource
  owner : SeatName
  deriving DecidableEq

structure ConvoyRequest where
  project : Address
  promises : BTreeMap PromiseId AdmittedPromise
  duties : BTreeMap DutyId Duty
  seats : List Seat
  quota : Quota
  priority : Nat
  /-- Admission stops with a panic on a request of more seats. -/
  seatsFit : seats.length ≤ u32Count

/-- The authority class that a caller claims. -/
inductive Authority where
  | operator
  | convoySupervisor
  | dispatcher
  | owner
  | ownerSupervisor
  deriving DecidableEq, Repr

structure Declare where
  promise : PromiseId
  label : String
  kind : String
  target : Address
  owner : SeatName

structure Submit where
  promise : PromiseId
  by_ : SeatName
  address : Address
  revision : String
  durable : String

structure Reject where
  promise : PromiseId

inductive Keep where
  | observed (promise : PromiseId) (submission : U32)
  | verdict (promise : PromiseId) (by_ : SeatName) (authority : Authority) (reason : String)

def Keep.promise : Keep → PromiseId
  | .observed promise _ | .verdict promise _ _ _ => promise

structure Retract where
  promise : PromiseId
  by_ : SeatName
  authority : Authority
  reason : String

structure Reassign where
  promise : PromiseId
  to_ : SeatName
  by_ : SeatName
  authority : Authority

structure RetireDuty where
  duty : DutyId
  by_ : SeatName
  authority : String

structure AddSeat where
  seat : SeatName
  parent : SeatName
  supervisedBy : Address
  by_ : SeatName
  authority : String

structure Resupervise where
  seat : SeatName
  supervisedBy : Address
  by_ : SeatName
  authority : String

structure RetireSeat where
  seat : SeatName
  by_ : SeatName
  authority : String

structure Rollover where
  by_ : SeatName
  authority : String

structure Abandon where
  by_ : SeatName
  reason : String
  authority : String

structure Readmission where
  quota : Quota
  by_ : SeatName
  authority : String

inductive ConvoyEdge where
  | declare (declare : Declare)
  | submit (submit : Submit)
  | reject (reject : Reject)
  | keep (keep : Keep)
  | retract (retract : Retract)
  | reassign (reassign : Reassign)
  | retireDuty (retire : RetireDuty)
  | addSeat (add : AddSeat)
  | resupervise (change : Resupervise)
  | retireSeat (retire : RetireSeat)
  | rollover (rollover : Rollover)
  | replaceSeat (seat : SeatName)
  | deliver
  | abandon (abandon : Abandon)
  | readmission (readmission : Readmission)

/-! ### Record writes -/

/-- A write to the convoy's records: a row appended, a field of a row, or a next generation. -/
inductive ConvoyWrite where
  | promise (promise : Promise)
  | submission (promise : Nat) (submission : Submission)
  | progress (promise : Nat) (progress : Stamped Progress)
  | owner (promise : Nat) (owner : SeatName)
  | seat (seat : Seat)
  | supervisor (seat : Nat) (supervisedBy : Address)
  | retired (seat : Nat)
  | replaced (seat : Nat) (count : Nat)
  | generationSeats (before after : Records Seat)
  | generationPromises (before : Records Promise)
  | generationDuties (before after : BTreeMap DutyId Duty)
  | promiseFloor (floor : Nat)

namespace ConvoyWrite

def field : ConvoyWrite → String
  | .seat _ | .supervisor _ _ | .retired _ | .replaced _ _ | .generationSeats _ _ => "seats"
  | .generationDuties _ _ => "duties"
  | .promiseFloor _ => "promise_floor"
  | .promise _ | .submission _ _ | .progress _ _ | .owner _ _ | .generationPromises _ => "promises"

def apply (spec : ConvoySpec) (version : Nat) : ConvoyWrite → Except RecordsFull ConvoySpec
  | .retired position =>
    .ok { spec with seats := spec.seats.modify position fun row => { row with retired := true } }
  | .replaced position count =>
    .ok { spec with seats := spec.seats.modify position fun row =>
      { row with replacements := count } }
  | .generationSeats _ after => do
    let seats ← after.records.foldlM (fun table row => Records.append table version row) .new
    return { spec with seats }
  | .generationPromises _ => .ok { spec with promises := .new }
  | .generationDuties _ after => .ok { spec with duties := after }
  | .promiseFloor value => .ok { spec with promiseFloor := value }
  | .promise row => do
    let promises ← spec.promises.append version row
    return { spec with promises }
  | .seat row => do
    let seats ← spec.seats.append version row
    return { spec with seats }
  | .submission position row =>
    match spec.promises.records[position]? with
    | some held => do
      let submissions ← held.submissions.append version row
      return { spec with promises := spec.promises.modify position fun row =>
        { row with submissions } }
    | none => .ok spec
  | .progress position value =>
    .ok { spec with promises := spec.promises.modify position fun row =>
      { row with progress := value } }
  | .owner position name =>
    .ok { spec with promises := spec.promises.modify position fun row =>
      { row with owner := name } }
  | .supervisor position address =>
    .ok { spec with seats := spec.seats.modify position fun row =>
      { row with supervisedBy := address } }

end ConvoyWrite

instance : RecordWrite ConvoyWrite ConvoySpec where
  field := ConvoyWrite.field
  apply write spec version := write.apply spec version

/-! ### Refusals and the world -/

inductive ConvoyRefusal where
  | noObligations
  | unknownProject
  | invalidQuota
  | notOpen
  | unknownPromise
  | promiseSettled
  | promisesOutstanding (promises : BTreeSet PromiseId)
  | unauthorised
  | quotaNotIncrease
  | promiseExists
  | notOwner
  | notDurable
  | notSubmitted
  | staleEvidence
  | unknownDuty
  | dutyHolds (duties : BTreeSet DutyId)
  | unknownSeat
  | seatExists
  | seatRetired
  | seatsFull
  | replacementsExhausted
  | seatCycle
  deriving DecidableEq

structure Limits where
  seats : Nat := 64
  replacements : Nat := 3
  deriving DecidableEq

/-- What convoy admission and gates read. -/
structure ConvoyWorld where
  authority : String → Option Bool
  durable : String → Option Bool
  project : Address → Option Unit
  limits : Option Limits

/-- `Limits::read`. -/
def ConvoyWorld.limitsRead (world : ConvoyWorld) : Limits := world.limits.getD {}

abbrev ConvoyHandle := Handle ConvoySpec ConvoyState ConvoyWorld

/-! ### Admission -/

/-- The parent that the seats give to a name. -/
def parentOf (seats : List Seat) (name : SeatName) : Option SeatName :=
  (Std.ExtTreeMap.ofList (seats.map fun seat => (seat.name, seat.parent)) compare)[name]?.join

/-- Following parents for `n` steps ends above the root. -/
def endsWithin (seats : List Seat) : Nat → Option SeatName → Bool
  | _, none => true
  | 0, some _ => false
  | n + 1, some name => endsWithin seats n (parentOf seats name)

/-- No seat is above itself. -/
def acyclic (seats : List Seat) : Bool :=
  seats.all fun seat => endsWithin seats seats.length seat.parent

def seatNames (seats : List Seat) : BTreeSet SeatName :=
  Std.ExtTreeSet.ofList (seats.map Seat.name) compare

/-- Every owner and parent is one of the seats, and no two seats share a name. -/
def ConvoyRequest.closed (request : ConvoyRequest) : Bool :=
  let seats := seatNames request.seats
  request.promises.toList.all (fun entry => seats.contains entry.2.owner)
    && request.duties.toList.all (fun entry => seats.contains entry.2.owner)
    && request.seats.all (fun seat => seat.parent.all fun parent => seats.contains parent)
    && seats.size == request.seats.length

theorem length_toList_promises_le {V : Type} (promises : BTreeMap PromiseId V) :
    promises.toList.length ≤ u32Count := by
  have hnodup := nodup_keys_toList promises
  have hle := hnodup.length_le_card
  simpa using hle

/-- The spec that admission stores. -/
def ConvoyRequest.spec (request : ConvoyRequest) (now : Timestamp) : ConvoySpec where
  project := request.project
  promiseFloor := 0
  priority := request.priority
  duties := request.duties
  seats := Records.ofList 0
    (request.seats.map fun seat => { seat with retired := false, replacements := 0 })
    (by simpa using request.seatsFit)
  promises := Records.ofList 0
    (request.promises.toList.map fun entry => {
      id := entry.1
      label := entry.2.label
      kind := entry.2.kind
      target := entry.2.target
      source := entry.2.source
      owner := entry.2.owner
      progress := ⟨.pending, now⟩
      submissions := .new })
    (by simpa using length_toList_promises_le request.promises)

def admits (world : ConvoyWorld) (now : Timestamp) (request : ConvoyRequest) :
    Except ConvoyRefusal (ConvoySpec × ConvoyState) := do
  refuseIf (request.promises.isEmpty ∧
    ¬ request.duties.toList.any fun entry => entry.2.scope = .lifetime) .noObligations
  refuseIf (world.project request.project).isNone .unknownProject
  refuseIf (¬ request.closed) .unknownSeat
  refuseIf (¬ acyclic request.seats) .seatCycle
  refuseIf ((seatNames request.seats).size > world.limitsRead.seats) .seatsFull
  return (request.spec now, .opened request.quota ∅)

/-! ### Gates -/

def authorised (h : ConvoyHandle) (authority : String) : Bool :=
  (h.world.authority authority).getD false

/-- Unknown first, then settled; the edge's own rule follows. -/
def openPromise (h : ConvoyHandle) (id : PromiseId) : Except ConvoyRefusal Promise :=
  match h.spec.promise id with
  | none => .error .unknownPromise
  | some (_, promise) => if promise.isOpen then .ok promise else .error .promiseSettled

def mayRetract (promise : Promise) (by_ : SeatName) : Authority → Bool
  | .operator => true
  | .convoySupervisor => promise.source = .template
  | .dispatcher => promise.source = .dispatch
  | .owner => promise.source = .crew ∧ by_ = promise.owner ∧ promise.submissions.records.isEmpty
  | .ownerSupervisor => promise.source = .crew ∧ ¬ promise.submissions.records.isEmpty

def mayKeep (promise : Promise) : Authority → Bool
  | .operator => true
  | .convoySupervisor => promise.source = .template
  | .dispatcher => promise.source = .dispatch
  | .owner => false
  | .ownerSupervisor => promise.source = .crew

def mayReassign (promise : Promise) (by_ : SeatName) : Authority → Bool
  | .operator | .ownerSupervisor => true
  | .owner => by_ = promise.owner
  | .convoySupervisor | .dispatcher => false

def gateDeclare (declare : Declare) (h : ConvoyHandle) : Except ConvoyRefusal Unit := do
  refuseIf (declare.promise.val < h.spec.promiseFloor ∨ (h.spec.promise declare.promise).isSome)
    .promiseExists
  let owner ← okOr (h.spec.seat declare.owner) .unknownSeat
  refuseIf owner.2.retired .seatRetired

def gateSubmit (submit : Submit) (h : ConvoyHandle) : Except ConvoyRefusal Unit := do
  let promise ← openPromise h submit.promise
  refuseIf (submit.by_ ≠ promise.owner) .notOwner
  refuseIf (¬ (h.world.durable submit.durable).getD false) .notDurable

def gateReject (reject : Reject) (h : ConvoyHandle) : Except ConvoyRefusal Unit := do
  let promise ← openPromise h reject.promise
  refuseIf (promise.progress.value ≠ .submitted) .notSubmitted

/-- The number of the current submission, as a saturated `u32`. -/
def currentSubmission (promise : Promise) : Nat :=
  min promise.submissions.records.length (u32Count - 1)

def gateKeep (keep : Keep) (h : ConvoyHandle) : Except ConvoyRefusal Unit :=
  match keep with
  | .observed promise submission => do
    let promise ← openPromise h promise
    refuseIf (promise.progress.value ≠ .submitted ∨ submission.val ≠ currentSubmission promise)
      .staleEvidence
  | .verdict promise _ authority reason => do
    let promise ← openPromise h promise
    refuseIf (¬ mayKeep promise authority ∨ reason.isEmpty) .unauthorised

def gateRetract (retract : Retract) (h : ConvoyHandle) : Except ConvoyRefusal Unit := do
  let promise ← openPromise h retract.promise
  refuseIf (¬ mayRetract promise retract.by_ retract.authority ∨ retract.reason.isEmpty)
    .unauthorised

def gateReassign (reassign : Reassign) (h : ConvoyHandle) : Except ConvoyRefusal Unit := do
  let promise ← openPromise h reassign.promise
  refuseIf (¬ mayReassign promise reassign.by_ reassign.authority) .unauthorised
  let owner ← okOr (h.spec.seat reassign.to_) .unknownSeat
  refuseIf owner.2.retired .seatRetired

def gateRetireDuty (retire : RetireDuty) (h : ConvoyHandle) : Except ConvoyRefusal Unit := do
  refuseIf (¬ authorised h retire.authority) .unauthorised
  refuseIf (¬ (h.spec.holding h.state.retired).contains retire.duty) .unknownDuty

def gateAddSeat (add : AddSeat) (h : ConvoyHandle) : Except ConvoyRefusal Unit := do
  refuseIf (¬ authorised h add.authority) .unauthorised
  refuseIf (h.spec.seat add.seat).isSome .seatExists
  let parent ← okOr (h.spec.seat add.parent) .unknownSeat
  refuseIf parent.2.retired .seatRetired
  refuseIf (h.spec.seats.records.length + 1 > h.world.limitsRead.seats) .seatsFull

def gateResupervise (change : Resupervise) (h : ConvoyHandle) : Except ConvoyRefusal Unit := do
  refuseIf (¬ authorised h change.authority) .unauthorised
  refuseIf (h.spec.seat change.seat).isNone .unknownSeat

def gateDeliver (h : ConvoyHandle) : Except ConvoyRefusal Unit := do
  refuseIf (¬ h.spec.outstanding.isEmpty) (.promisesOutstanding h.spec.outstanding)
  refuseIf (¬ (h.spec.holding h.state.retired).isEmpty)
    (.dutyHolds (h.spec.holding h.state.retired))

def gateAbandon (abandon : Abandon) (h : ConvoyHandle) : Except ConvoyRefusal Unit :=
  refuseIf (¬ authorised h abandon.authority ∨ abandon.reason.isEmpty) .unauthorised

/-- Every class keeps its count or raises it. -/
def noLower (current quota : Quota) : Bool :=
  quota.toList.all fun entry => current[entry.1]?.any fun old => old ≤ entry.2

def gateReadmission (readmission : Readmission) (h : ConvoyHandle) : Except ConvoyRefusal Unit := do
  refuseIf (¬ authorised h readmission.authority) .unauthorised
  refuseIf (¬ (readmission.quota.keys = h.state.quota.keys ∧
      noLower h.state.quota readmission.quota))
    .quotaNotIncrease

/-- The open promises of a seat. -/
def seatOutstanding (spec : ConvoySpec) (seat : SeatName) : BTreeSet PromiseId :=
  Std.ExtTreeSet.ofList
    ((spec.promises.records.filter fun p => p.owner = seat ∧ p.isOpen).map Promise.id) compare

/-- A duty that has not ended. -/
def liveDuty (spec : ConvoySpec) (retired : BTreeSet DutyId) (id : DutyId) (duty : Duty) : Bool :=
  match duty.scope with
  | .lifetime => ¬ retired.contains id
  | .whileOpen promises => promises.toList.any fun p => (spec.promise p).any fun row => row.2.isOpen

/-- The duties of a seat that have not ended. -/
def seatDuties (spec : ConvoySpec) (retired : BTreeSet DutyId) (seat : SeatName) :
    BTreeSet DutyId :=
  Std.ExtTreeSet.ofList
    ((spec.duties.toList.filter fun entry =>
      entry.2.owner = seat ∧ liveDuty spec retired entry.1 entry.2).map Prod.fst) compare

def gateRetireSeat (retire : RetireSeat) (h : ConvoyHandle) : Except ConvoyRefusal Unit := do
  refuseIf (¬ authorised h retire.authority) .unauthorised
  let seat ← okOr (h.spec.seat retire.seat) .unknownSeat
  refuseIf seat.2.retired .seatRetired
  refuseIf (¬ (seatOutstanding h.spec retire.seat).isEmpty)
    (.promisesOutstanding (seatOutstanding h.spec retire.seat))
  refuseIf (¬ (seatDuties h.spec h.state.retired retire.seat).isEmpty)
    (.dutyHolds (seatDuties h.spec h.state.retired retire.seat))

def gateReplaceSeat (seat : SeatName) (h : ConvoyHandle) : Except ConvoyRefusal Unit := do
  let row ← okOr (h.spec.seat seat) .unknownSeat
  refuseIf row.2.retired .seatRetired
  refuseIf (row.2.replacements ≥ h.world.limitsRead.replacements) .replacementsExhausted

def gateRollover (rollover : Rollover) (h : ConvoyHandle) : Except ConvoyRefusal Unit := do
  refuseIf (¬ authorised h rollover.authority) .unauthorised
  refuseIf (h.spec.holding h.state.retired).isEmpty .noObligations
  refuseIf (¬ h.spec.outstanding.isEmpty) (.promisesOutstanding h.spec.outstanding)

/-! ### Effects

A record effect only writes rows: the state stays as it is.  Only an open convoy
comes to an effect, so the other states are returned as they are. -/

abbrev ConvoyMove := ConvoyState × List ConvoyWrite

def declare (declare : Declare) (h : ConvoyHandle) : List ConvoyWrite :=
  [.promise {
    id := declare.promise
    label := declare.label
    kind := declare.kind
    target := declare.target
    source := .crew
    owner := declare.owner
    progress := ⟨.pending, h.now⟩
    submissions := .new }]

/-- Submitting again keeps the earlier submission as a row, and the promise stays Submitted. -/
def submit (submit : Submit) (h : ConvoyHandle) : List ConvoyWrite :=
  match h.spec.promise submit.promise with
  | none => []
  | some (position, promise) =>
    .submission position
        { address := submit.address, revision := submit.revision, by_ := submit.by_ } ::
      if promise.progress.value ≠ .submitted then [.progress position ⟨.submitted, h.now⟩] else []

def progress (promise : PromiseId) (to_ : Progress) (h : ConvoyHandle) : List ConvoyWrite :=
  match h.spec.promise promise with
  | none => []
  | some (position, _) => [.progress position ⟨to_, h.now⟩]

/-- Reassigning to the current owner writes nothing. -/
def reassign (reassign : Reassign) (h : ConvoyHandle) : List ConvoyWrite :=
  match h.spec.promise reassign.promise with
  | none => []
  | some (position, promise) =>
    if promise.owner ≠ reassign.to_ then [.owner position reassign.to_] else []

def addSeat (add : AddSeat) (_ : ConvoyHandle) : List ConvoyWrite :=
  [.seat {
    role := add.seat.role
    seat := add.seat.seat
    parent := some add.parent
    supervisedBy := add.supervisedBy
    retired := false
    replacements := 0 }]

/-- Pointing to the current supervisor again writes nothing. -/
def resupervise (change : Resupervise) (h : ConvoyHandle) : List ConvoyWrite :=
  match h.spec.seat change.seat with
  | none => []
  | some (position, seat) =>
    if seat.supervisedBy ≠ change.supervisedBy then [.supervisor position change.supervisedBy]
    else []

def retireSeat (retire : RetireSeat) (h : ConvoyHandle) : List ConvoyWrite :=
  match h.spec.seat retire.seat with
  | none => []
  | some (position, _) => [.retired position]

/-- The count is below the limit, a `u32`, so the addition does not overflow. -/
def replaceSeat (seat : SeatName) (h : ConvoyHandle) : List ConvoyWrite :=
  match h.spec.seat seat with
  | none => []
  | some (position, row) => [.replaced position (row.replacements + 1)]

def retireDuty (retire : RetireDuty) (h : ConvoyHandle) : ConvoyMove :=
  match h.state with
  | .opened quota retired => (.opened quota (retired.insert retire.duty), [])
  | other => (other, [])

def deliver (h : ConvoyHandle) : ConvoyMove :=
  match h.state with
  | .opened quota retired => (.delivered quota retired, [])
  | other => (other, [])

def abandon (abandon : Abandon) (h : ConvoyHandle) : ConvoyMove :=
  match h.state with
  | .opened quota retired => (.abandoned quota retired abandon.reason, [])
  | other => (other, [])

def readmission (readmission : Readmission) (h : ConvoyHandle) : ConvoyMove :=
  match h.state with
  | .opened _ retired => (.opened readmission.quota retired, [])
  | other => (other, [])

/-- The floor that leaves every id of the generation below it. -/
def nextFloor (spec : ConvoySpec) : Nat :=
  max ((spec.promises.records.map fun p => p.id.val + 1).max?.getD spec.promiseFloor)
    spec.promiseFloor

/-- The seats that the next generation keeps, each at the root where its parent retired. -/
def carriedSeats (seats : List Seat) : List Seat :=
  let kept := seats.filter fun seat => ¬ seat.retired
  kept.map fun seat =>
    if seat.parent.any fun parent => ¬ (seatNames kept).contains parent then
      { seat with parent := none }
    else seat

theorem length_carriedSeats_le (seats : List Seat) :
    (carriedSeats seats).length ≤ seats.length := by
  rw [carriedSeats, List.length_map]
  exact List.length_filter_le _ seats

def rollover (h : ConvoyHandle) : ConvoyMove :=
  let before := h.spec
  let seats := Records.ofList 0 (carriedSeats before.seats.records)
    ((length_carriedSeats_le _).trans before.seats.length_records_le)
  let duties := before.duties.filter fun id _ => (before.holding h.state.retired).contains id
  let writes : List ConvoyWrite := [
    .generationSeats before.seats seats,
    .generationPromises before.promises,
    .generationDuties before.duties duties,
    .promiseFloor (nextFloor before)]
  match h.state with
  | .opened quota _ => (.opened quota ∅, writes)
  | other => (other, writes)

/-! ### The machine -/

/-- An edge that only writes records. -/
def recordEdge (field : String) (gate : ConvoyHandle → Except ConvoyRefusal Unit)
    (effect : ConvoyHandle → List ConvoyWrite) :
    DeclaredEdge ConvoySpec ConvoyState ConvoyLabel ConvoyWorld ConvoyWrite ConvoyRefusal where
  fromLabels := [.opened]
  toLabels := [.opened]
  writes := [field]
  gate := gate
  effect h := (h.state, effect h)

def convoyEdge : ConvoyEdge →
    DeclaredEdge ConvoySpec ConvoyState ConvoyLabel ConvoyWorld ConvoyWrite ConvoyRefusal
  | .declare edge => recordEdge "promises" (gateDeclare edge) (declare edge)
  | .submit edge => recordEdge "promises" (gateSubmit edge) (submit edge)
  | .reject edge => recordEdge "promises" (gateReject edge) (progress edge.promise .pending)
  | .keep edge => recordEdge "promises" (gateKeep edge) (progress edge.promise .kept)
  | .retract edge => recordEdge "promises" (gateRetract edge) (progress edge.promise .retracted)
  | .reassign edge => recordEdge "promises" (gateReassign edge) (reassign edge)
  | .retireDuty edge => {
      fromLabels := [.opened], toLabels := [.opened], changes := ["retired"]
      gate := gateRetireDuty edge, effect := retireDuty edge }
  | .addSeat edge => recordEdge "seats" (gateAddSeat edge) (addSeat edge)
  | .resupervise edge => recordEdge "seats" (gateResupervise edge) (resupervise edge)
  | .retireSeat edge => recordEdge "seats" (gateRetireSeat edge) (retireSeat edge)
  | .replaceSeat seat => recordEdge "seats" (gateReplaceSeat seat) (replaceSeat seat)
  | .rollover edge => {
      fromLabels := [.opened], toLabels := [.opened], changes := ["retired"]
      writes := ["seats", "promises", "duties", "promise_floor"]
      gate := gateRollover edge, effect := rollover }
  | .deliver => {
      fromLabels := [.opened], toLabels := [.delivered]
      gate := gateDeliver, effect := deliver }
  | .abandon edge => {
      fromLabels := [.opened], toLabels := [.abandoned], changes := ["reason"]
      gate := gateAbandon edge, effect := abandon edge }
  | .readmission edge => {
      fromLabels := [.opened], toLabels := [.opened], changes := ["quota"]
      gate := gateReadmission edge, effect := readmission edge }

/-- The convoy machine. -/
def convoy : Machine ConvoyRequest ConvoySpec ConvoyState ConvoyLabel ConvoyEdge ConvoyWorld
    ConvoyWrite ConvoyRefusal where
  initial := .opened
  edge := convoyEdge
  ends := [(.delivered, "the convoy delivered its work"), (.abandoned, "the convoy was abandoned")]
  ended _ _ := .notOpen
  wrongState _ _ := .notOpen
  admits := admits

/-! ### Declarations -/

theorem fromLabels_convoyEdge (e : ConvoyEdge) : (convoyEdge e).fromLabels = [.opened] := by
  cases e <;> rfl

variable {h : ConvoyHandle} {quota : Quota} {retired : BTreeSet DutyId}

/-- In an open convoy an edge is its gate and its effect. -/
theorem verdict_opened (hstate : h.state = .opened quota retired) (e : ConvoyEdge) :
    convoy.verdict h e =
      ((convoyEdge e).gate h >>= fun _ => .ok ((convoyEdge e).effect h)) := by
  have hend : convoy.endCheck (StateValue.label h.state) = .ok () := by
    rw [hstate]
    rfl
  have hfrom : ¬ StateValue.label h.state ∉ (convoy.edge e).fromLabels := by
    rw [hstate, not_not]
    show ConvoyLabel.opened ∈ (convoyEdge e).fromLabels
    simp [fromLabels_convoyEdge]
  exact (bind_ok hend).trans (refuseIf_bind hfrom)

/-- An ended convoy takes no edge. -/
theorem verdict_ended (hstate : StateValue.label h.state ≠ .opened) (e : ConvoyEdge) :
    convoy.verdict h e = .error .notOpen := by
  have hend : convoy.endCheck (StateValue.label h.state) = .error .notOpen := by
    cases hs : h.state with
    | opened quota retired => exact absurd (by rw [hs]; rfl) hstate
    | delivered | abandoned => rfl
  rw [Machine.verdict, hend]
  rfl

theorem opened_of_verdict {e : ConvoyEdge} {moved : ConvoyMove}
    (hv : convoy.verdict h e = .ok moved) : ∃ quota retired, h.state = .opened quota retired := by
  cases hs : h.state with
  | opened quota retired => exact ⟨quota, retired, rfl⟩
  | delivered | abandoned =>
    rw [verdict_ended (by rw [hs]; nofun)] at hv
    cases hv

theorem field_effect (e : ConvoyEdge) (h : ConvoyHandle) :
    ∀ write ∈ ((convoyEdge e).effect h).2, write.field ∈ (convoyEdge e).writes := by
  cases e with
  | declare edge | addSeat edge =>
    simp [convoyEdge, recordEdge, declare, addSeat, ConvoyWrite.field]
  | submit edge | reassign edge | resupervise edge =>
    simp only [convoyEdge, recordEdge, submit, reassign, resupervise]
    split
    · simp
    · split_ifs <;> simp [ConvoyWrite.field]
  | reject edge | keep edge | retract edge | retireSeat edge | replaceSeat edge | rollover edge =>
    simp only [convoyEdge, recordEdge, progress, retireSeat, replaceSeat, rollover]
    split <;> simp [ConvoyWrite.field]
  | retireDuty edge | deliver | abandon edge | readmission edge =>
    simp only [convoyEdge, retireDuty, deliver, abandon, readmission]
    split <;> simp

/-- The next state of an edge from an open convoy. -/
theorem state_effect (e : ConvoyEdge) (hstate : h.state = .opened quota retired) :
    ((convoyEdge e).effect h).1 =
      match e with
      | .retireDuty r => .opened quota (retired.insert r.duty)
      | .rollover _ => .opened quota ∅
      | .deliver => .delivered quota retired
      | .abandon a => .abandoned quota retired a.reason
      | .readmission r => .opened r.quota retired
      | _ => .opened quota retired := by
  cases e with
  | retireDuty r => simp [convoyEdge, retireDuty, hstate]
  | rollover r => simp [convoyEdge, rollover, hstate]
  | deliver => simp [convoyEdge, deliver, hstate]
  | abandon a => simp [convoyEdge, abandon, hstate]
  | readmission r => simp [convoyEdge, readmission, hstate]
  | _ => exact hstate

/-- **The convoy's effects keep to their declarations.** -/
theorem convoy_sound : convoy.Sound where
  writes h e moved hv := by
    obtain ⟨-, -, -, rfl⟩ := Machine.verdict_eq_ok hv
    exact field_effect e h
  target h e moved hv := by
    obtain ⟨quota, retired, hstate⟩ := opened_of_verdict hv
    obtain ⟨-, -, -, rfl⟩ := Machine.verdict_eq_ok hv
    have hnext := state_effect e hstate
    show StateValue.label ((convoyEdge e).effect h).1 ∈ (convoyEdge e).toLabels
    rw [hnext]
    cases e <;> exact List.mem_singleton.mpr rfl
  changes h e moved hv := by
    obtain ⟨quota, retired, hstate⟩ := opened_of_verdict hv
    obtain ⟨-, -, -, rfl⟩ := Machine.verdict_eq_ok hv
    have hnext := state_effect e hstate
    show ∀ datum ∈ StateValue.data ((convoyEdge e).effect h).1, datum ∉ StateValue.data h.state →
      datum.1 ∈ (convoyEdge e).changes
    intro datum hmem hnew
    cases e <;> simp_all [StateValue.data, convoyEdge, recordEdge]

end Flotilla.Convoy
