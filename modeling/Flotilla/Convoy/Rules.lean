import Flotilla.Convoy.Machine

/-!
# The convoy specification

The pure rules of the Quint module `convoy`: admission and one step over finite
maps and sets.  Its seats are the code's seat names, its references an address at
a revision, its parent `Root` is `none`, and its constants are the `Limits`.
Counts are natural numbers, so `validQuota` always holds and is left out.

`Moves` says once what an accepted event can do; the invariants of the
specification are proved from it.
-/

namespace Flotilla.Convoy.Rules

open Lib Std
open Lib.Table (keysWhere)

/-! ### Records -/

structure SeatRecord where
  parent : Option SeatName
  supervisedBy : Address
  replacements : Nat
  deriving DecidableEq

/-- A promise's definition. -/
structure Definition where
  kind : String
  target : Address
  deriving DecidableEq

/-- A durable reference: an address at a revision. -/
abbrev Reference := Address × String

structure PromiseRecord where
  promise : Definition
  source : PromiseSource
  owner : SeatName
  state : Progress
  submissions : List Reference
  deriving DecidableEq

structure AdmittedPromise where
  promise : Definition
  source : PromiseSource
  owner : SeatName
  deriving DecidableEq

structure Request where
  project : Address
  projectKnown : Bool
  promises : BTreeMap PromiseId AdmittedPromise
  duties : BTreeMap DutyId Duty
  seats : BTreeMap SeatName SeatRecord
  quota : Quota
  priority : Nat

structure Spec where
  project : Address
  duties : BTreeMap DutyId Duty
  priority : Nat

structure Work where
  spec : Spec
  promises : BTreeMap PromiseId PromiseRecord
  seats : BTreeMap SeatName SeatRecord
  retired : BTreeSet DutyId
  quota : Quota
  retiredSeats : BTreeSet SeatName
  promiseFloor : Nat

inductive State where
  | opened (work : Work)
  | delivered (work : Work)
  | abandoned (work : Work) (reason : String)

inductive Keeping where
  | observed (promise : PromiseId) (submission : Nat)
  | verdict (promise : PromiseId) (authority : Authority) (reason : String)

inductive Event where
  | declare (promise : PromiseId) (definition : Definition) (owner : SeatName)
  | submit (promise : PromiseId) (by_ : SeatName) (reference : Reference) (durable : Bool)
  | reject (promise : PromiseId)
  | keep (keeping : Keeping)
  | retract (promise : PromiseId) (by_ : SeatName) (authority : Authority) (reason : String)
  | reassign (promise : PromiseId) (to_ by_ : SeatName) (authority : Authority)
  | retireDuty (duty : DutyId) (authorised : Bool)
  | addSeat (seat parent : SeatName) (supervisedBy : Address) (authorised : Bool)
  | resupervise (seat : SeatName) (supervisedBy : Address) (authorised : Bool)
  | retireSeat (seat : SeatName) (authorised : Bool)
  | rollover (authorised : Bool)
  | replaceSeat (seat : SeatName)
  | deliver
  | abandon (authorised : Bool) (reason : String)
  | readmission (quota : Quota) (authorised : Bool)

/-! ### Admission -/

def lifetime (d : Duty) : Bool := d.scope = .lifetime

/-- The parents of the seats in `s`, as far as the seats go. -/
def parents (seats : BTreeMap SeatName SeatRecord) (s : BTreeSet SeatName) : BTreeSet SeatName :=
  ExtTreeSet.ofList
    ((s.toList.filterMap fun q => seats[q]?.bind SeatRecord.parent).filter seats.contains) compare

/-- The seats a seat was created under, transitively. -/
def above (seats : BTreeMap SeatName SeatRecord) (seat : SeatName) : BTreeSet SeatName :=
  seats.keys.foldl (fun found _ => found ∪ parents seats found)
    (parents seats (ExtTreeSet.ofList [seat] compare))

def acyclic (seats : BTreeMap SeatName SeatRecord) : Bool :=
  seats.keys.all fun s => ¬ (above seats s).contains s

/-- Every owner, and every parent, is one of the admitted seats. -/
def seatsClosed (r : Request) : Bool :=
  r.promises.toList.all (fun entry => r.seats.contains entry.2.owner)
    && r.duties.toList.all (fun entry => r.seats.contains entry.2.owner)
    && r.seats.toList.all (fun entry => entry.2.parent.all fun parent => r.seats.contains parent)

def admits (limits : Limits) (r : Request) : Except ConvoyRefusal State := do
  refuseIf (r.promises.keys.length = 0 ∧ ¬ r.duties.toList.any fun entry => lifetime entry.2)
    .noObligations
  refuseIf (¬ r.projectKnown) .unknownProject
  refuseIf (¬ seatsClosed r) .unknownSeat
  refuseIf (¬ acyclic r.seats) .seatCycle
  refuseIf (r.seats.size > limits.seats) .seatsFull
  return .opened {
    spec := { project := r.project, duties := r.duties, priority := r.priority }
    seats := r.seats
    promises := r.promises.map fun _ p => {
      promise := p.promise
      source := p.source
      owner := p.owner
      state := .pending
      submissions := [] }
    retired := ∅
    quota := r.quota
    retiredSeats := ∅
    promiseFloor := 0 }

/-! ### One step -/

def PromiseRecord.isOpen (p : PromiseRecord) : Bool := p.state = .pending ∨ p.state = .submitted

def openPromises (w : Work) : BTreeSet PromiseId := keysWhere w.promises fun _ p => p.isOpen

def mayRetract (p : PromiseRecord) (by_ : SeatName) : Authority → Bool
  | .operator => true
  | .convoySupervisor => p.source = .template
  | .dispatcher => p.source = .dispatch
  | .owner => p.source = .crew ∧ by_ = p.owner ∧ p.submissions.length = 0
  | .ownerSupervisor => p.source = .crew ∧ p.submissions.length > 0

def mayKeep (p : PromiseRecord) : Authority → Bool
  | .operator => true
  | .convoySupervisor => p.source = .template
  | .dispatcher => p.source = .dispatch
  | .owner => false
  | .ownerSupervisor => p.source = .crew

def mayReassign (p : PromiseRecord) (by_ : SeatName) : Authority → Bool
  | .operator => true
  | .owner => by_ = p.owner
  | .ownerSupervisor => true
  | .convoySupervisor | .dispatcher => false

def holdingDuties (w : Work) : BTreeSet DutyId :=
  keysWhere w.spec.duties fun id d => lifetime d ∧ ¬ w.retired.contains id

def liveDuty (w : Work) (id : DutyId) (d : Duty) : Bool :=
  match d.scope with
  | .lifetime => ¬ w.retired.contains id
  | .whileOpen ps => ps.toList.any (openPromises w).contains

/-- The open promises of a seat. -/
def seatPromises (w : Work) (seat : SeatName) : BTreeSet PromiseId :=
  keysWhere w.promises fun _ p => p.isOpen ∧ p.owner = seat

/-- The duties of a seat that have not ended. -/
def seatDuties (w : Work) (seat : SeatName) : BTreeSet DutyId :=
  keysWhere w.spec.duties fun id d => d.owner = seat ∧ liveDuty w id d

/-- The seats that are not retired. -/
def liveSeats (w : Work) : BTreeSet SeatName :=
  keysWhere w.seats fun name _ => ¬ w.retiredSeats.contains name

/-- The next generation: the seats not retired, each at the root where its parent retired, the
holding duties, and no promises. -/
def nextGeneration (w : Work) : Work :=
  { w with
    spec := { w.spec with duties := w.spec.duties.filter fun id _ => (holdingDuties w).contains id }
    seats := (w.seats.filter fun name _ => (liveSeats w).contains name).map fun _ r =>
      { r with parent := r.parent.filter (liveSeats w).contains }
    promises := ∅
    retired := ∅
    retiredSeats := ∅
    promiseFloor := w.promises.keys.foldl (fun m p => if p.val + 1 > m then p.val + 1 else m)
      w.promiseFloor }

def withPromise (w : Work) (id : PromiseId) (p : PromiseRecord) : Work :=
  { w with promises := w.promises.insert id p }

def withSeat (w : Work) (seat : SeatName) (r : SeatRecord) : Work :=
  { w with seats := w.seats.insert seat r }

/-- Unknown first, then settled. -/
def onOpen (w : Work) (id : PromiseId) : Except ConvoyRefusal PromiseRecord :=
  match w.promises[id]? with
  | none => .error .unknownPromise
  | some p => if p.isOpen then .ok p else .error .promiseSettled

def openStep (limits : Limits) (w : Work) : Event → Except ConvoyRefusal State
  | .declare id definition owner => do
    refuseIf (id ∈ w.promises ∨ id.val < w.promiseFloor) .promiseExists
    refuseIf (owner ∉ w.seats) .unknownSeat
    refuseIf (owner ∈ w.retiredSeats) .seatRetired
    return .opened (withPromise w id {
      promise := definition, source := .crew, owner, state := .pending, submissions := [] })
  | .submit id by_ reference durable => do
    let p ← onOpen w id
    refuseIf (by_ ≠ p.owner) .notOwner
    refuseIf (¬ durable) .notDurable
    return .opened (withPromise w id
      { p with state := .submitted, submissions := p.submissions ++ [reference] })
  | .reject id => do
    let p ← onOpen w id
    refuseIf (p.state ≠ .submitted) .notSubmitted
    return .opened (withPromise w id { p with state := .pending })
  | .keep (.observed id submission) => do
    let p ← onOpen w id
    refuseIf (p.state ≠ .submitted ∨ submission ≠ p.submissions.length) .staleEvidence
    return .opened (withPromise w id { p with state := .kept })
  | .keep (.verdict id authority reason) => do
    let p ← onOpen w id
    refuseIf (¬ mayKeep p authority ∨ reason = "") .unauthorised
    return .opened (withPromise w id { p with state := .kept })
  | .retract id by_ authority reason => do
    let p ← onOpen w id
    refuseIf (¬ mayRetract p by_ authority ∨ reason = "") .unauthorised
    return .opened (withPromise w id { p with state := .retracted })
  | .reassign id to_ by_ authority => do
    let p ← onOpen w id
    refuseIf (¬ mayReassign p by_ authority) .unauthorised
    refuseIf (to_ ∉ w.seats) .unknownSeat
    refuseIf (to_ ∈ w.retiredSeats) .seatRetired
    return .opened (withPromise w id { p with owner := to_ })
  | .retireDuty duty authorised => do
    refuseIf (¬ authorised) .unauthorised
    refuseIf (duty ∉ holdingDuties w) .unknownDuty
    return .opened { w with retired := w.retired.insert duty }
  | .addSeat seat parent supervisedBy authorised => do
    refuseIf (¬ authorised) .unauthorised
    refuseIf (seat ∈ w.seats) .seatExists
    refuseIf (parent ∉ w.seats) .unknownSeat
    refuseIf (parent ∈ w.retiredSeats) .seatRetired
    refuseIf (w.seats.size + 1 > limits.seats) .seatsFull
    return .opened (withSeat w seat { parent := some parent, supervisedBy, replacements := 0 })
  | .resupervise seat supervisedBy authorised => do
    refuseIf (¬ authorised) .unauthorised
    let r ← okOr w.seats[seat]? .unknownSeat
    return .opened (withSeat w seat { r with supervisedBy })
  | .retireSeat seat authorised => do
    refuseIf (¬ authorised) .unauthorised
    refuseIf (seat ∉ w.seats) .unknownSeat
    refuseIf (seat ∈ w.retiredSeats) .seatRetired
    refuseIf ((seatPromises w seat).size > 0) (.promisesOutstanding (seatPromises w seat))
    refuseIf ((seatDuties w seat).size > 0) (.dutyHolds (seatDuties w seat))
    return .opened { w with retiredSeats := w.retiredSeats.insert seat }
  | .rollover authorised => do
    refuseIf (¬ authorised) .unauthorised
    refuseIf ((holdingDuties w).size = 0) .noObligations
    refuseIf ((openPromises w).size > 0) (.promisesOutstanding (openPromises w))
    return .opened (nextGeneration w)
  | .replaceSeat seat => do
    let r ← okOr w.seats[seat]? .unknownSeat
    refuseIf (seat ∈ w.retiredSeats) .seatRetired
    refuseIf (r.replacements ≥ limits.replacements) .replacementsExhausted
    return .opened (withSeat w seat { r with replacements := r.replacements + 1 })
  | .deliver => do
    refuseIf ((openPromises w).size > 0) (.promisesOutstanding (openPromises w))
    refuseIf ((holdingDuties w).size > 0) (.dutyHolds (holdingDuties w))
    return .delivered w
  | .abandon authorised reason => do
    refuseIf (¬ authorised ∨ reason = "") .unauthorised
    return .abandoned w reason
  | .readmission quota authorised => do
    refuseIf (¬ authorised) .unauthorised
    refuseIf (quota.keys ≠ w.quota.keys ∨
      ¬ quota.toList.all fun entry => w.quota[entry.1]?.any fun old => entry.2 ≥ old)
      .quotaNotIncrease
    return .opened { w with quota }

def step (limits : Limits) (s : State) (e : Event) : Except ConvoyRefusal State :=
  match s with
  | .opened w => openStep limits w e
  | .delivered _ | .abandoned _ _ => .error .notOpen

/-! ### What an accepted event does -/

theorem onOpen_eq_ok {w : Work} {id : PromiseId} {p : PromiseRecord} (h : onOpen w id = .ok p) :
    w.promises[id]? = some p ∧ p.isOpen = true := by
  rw [onOpen] at h
  cases hp : w.promises[id]? with
  | none =>
    rw [hp] at h
    cases h
  | some p' =>
    rw [hp] at h
    dsimp only at h
    split_ifs at h with hopen
    cases h
    exact ⟨rfl, hopen⟩

/-- What an accepted event does to the work of an open convoy. -/
inductive Moves (w : Work) : Event → State → Prop where
  | declare {id definition owner} (hnew : id ∉ w.promises) (hfloor : w.promiseFloor ≤ id.val)
      (howner : owner ∈ w.seats) (hlive : owner ∉ w.retiredSeats) :
      Moves w (.declare id definition owner) (.opened (withPromise w id
        { promise := definition, source := .crew, owner, state := .pending, submissions := [] }))
  /-- An open promise changes its state or gains a submission. -/
  | progress {e id p p'} (hp : w.promises[id]? = some p) (hopen : p.isOpen = true)
      (howner : p'.owner = p.owner) (hsub : p'.state = .submitted → p'.submissions ≠ []) :
      Moves w e (.opened (withPromise w id p'))
  | reassign {id to_ by_ authority p} (hp : w.promises[id]? = some p) (hopen : p.isOpen = true)
      (howner : to_ ∈ w.seats) (hlive : to_ ∉ w.retiredSeats) :
      Moves w (.reassign id to_ by_ authority) (.opened (withPromise w id { p with owner := to_ }))
  | retireDuty {duty authorised} :
      Moves w (.retireDuty duty authorised) (.opened { w with retired := w.retired.insert duty })
  | addSeat {seat parent supervisedBy authorised} (hnew : seat ∉ w.seats)
      (hparent : parent ∈ w.seats) :
      Moves w (.addSeat seat parent supervisedBy authorised)
        (.opened (withSeat w seat { parent := some parent, supervisedBy, replacements := 0 }))
  /-- A seat changes, and keeps its parent. -/
  | seat {e seat r r'} (hr : w.seats[seat]? = some r) (hparent : r'.parent = r.parent) :
      Moves w e (.opened (withSeat w seat r'))
  | retireSeat {seat authorised} (hseat : seat ∈ w.seats) (hpromises : seatPromises w seat = ∅)
      (hduties : seatDuties w seat = ∅) :
      Moves w (.retireSeat seat authorised)
        (.opened { w with retiredSeats := w.retiredSeats.insert seat })
  | rollover {authorised} (hholding : holdingDuties w ≠ ∅) (hopen : openPromises w = ∅) :
      Moves w (.rollover authorised) (.opened (nextGeneration w))
  | deliver (hopen : openPromises w = ∅) (hholding : holdingDuties w = ∅) :
      Moves w .deliver (.delivered w)
  | abandon {authorised reason} : Moves w (.abandon authorised reason) (.abandoned w reason)
  | readmission {quota authorised} (hkeys : quota.keys = w.quota.keys)
      (hcounts : ∀ (c : VesselClass) (old : Nat), w.quota[c]? = some old →
        ∃ new, quota[c]? = some new ∧ old ≤ new) :
      Moves w (.readmission quota authorised) (.opened { w with quota })

theorem size_pos_iff {K : Type} [Ord K] [TransOrd K] {s : BTreeSet K} : s.size > 0 ↔ s ≠ ∅ := by
  rw [gt_iff_lt, Nat.pos_iff_ne_zero, ne_eq, ne_eq, not_iff_not,
    ← ExtTreeSet.isEmpty_iff, ExtTreeSet.isEmpty_eq_size_beq_zero, beq_iff_eq]

theorem moves_of_openStep {limits : Limits} {w : Work} {e : Event} {s : State}
    (h : openStep limits w e = .ok s) : Moves w e s := by
  cases e with
  | declare id definition owner =>
    obtain ⟨hnew, h⟩ := of_refuseIf h
    obtain ⟨howner, h⟩ := of_refuseIf h
    obtain ⟨hlive, h⟩ := of_refuseIf h
    cases h
    have hnew := not_or.mp hnew
    exact .declare hnew.1 (Nat.le_of_not_lt hnew.2) (not_not.mp howner) hlive
  | submit id by_ reference durable =>
    obtain ⟨p, hp, h⟩ := bind_eq_ok h
    obtain ⟨-, h⟩ := of_refuseIf h
    obtain ⟨-, h⟩ := of_refuseIf h
    cases h
    exact .progress (onOpen_eq_ok hp).1 (onOpen_eq_ok hp).2 rfl fun _ => by simp
  | keep keeping =>
    cases keeping with
    | observed id submission | verdict id authority reason =>
      obtain ⟨p, hp, h⟩ := bind_eq_ok h
      obtain ⟨-, h⟩ := of_refuseIf h
      cases h
      exact .progress (onOpen_eq_ok hp).1 (onOpen_eq_ok hp).2 rfl nofun
  | reject id | retract id by_ authority reason =>
    obtain ⟨p, hp, h⟩ := bind_eq_ok h
    obtain ⟨-, h⟩ := of_refuseIf h
    cases h
    exact .progress (onOpen_eq_ok hp).1 (onOpen_eq_ok hp).2 rfl nofun
  | reassign id to_ by_ authority =>
    obtain ⟨p, hp, h⟩ := bind_eq_ok h
    obtain ⟨-, h⟩ := of_refuseIf h
    obtain ⟨howner, h⟩ := of_refuseIf h
    obtain ⟨hlive, h⟩ := of_refuseIf h
    cases h
    exact .reassign (onOpen_eq_ok hp).1 (onOpen_eq_ok hp).2
      (not_not.mp howner) hlive
  | retireDuty duty authorised =>
    obtain ⟨-, h⟩ := of_refuseIf h
    obtain ⟨-, h⟩ := of_refuseIf h
    cases h
    exact .retireDuty
  | addSeat seat parent supervisedBy authorised =>
    obtain ⟨-, h⟩ := of_refuseIf h
    obtain ⟨hnew, h⟩ := of_refuseIf h
    obtain ⟨hparent, h⟩ := of_refuseIf h
    obtain ⟨-, h⟩ := of_refuseIf h
    obtain ⟨-, h⟩ := of_refuseIf h
    cases h
    exact .addSeat hnew (not_not.mp hparent)
  | resupervise seat supervisedBy authorised =>
    obtain ⟨-, h⟩ := of_refuseIf h
    obtain ⟨r, hr, h⟩ := bind_eq_ok h
    cases h
    exact .seat (okOr_eq_ok.mp hr) rfl
  | retireSeat seat authorised =>
    obtain ⟨-, h⟩ := of_refuseIf h
    obtain ⟨hseat, h⟩ := of_refuseIf h
    obtain ⟨-, h⟩ := of_refuseIf h
    obtain ⟨hpromises, h⟩ := of_refuseIf h
    obtain ⟨hduties, h⟩ := of_refuseIf h
    cases h
    rw [size_pos_iff, not_not] at hpromises hduties
    exact .retireSeat (not_not.mp hseat) hpromises hduties
  | rollover authorised =>
    obtain ⟨-, h⟩ := of_refuseIf h
    obtain ⟨hholding, h⟩ := of_refuseIf h
    obtain ⟨hopen, h⟩ := of_refuseIf h
    cases h
    rw [← ne_eq, ← Nat.pos_iff_ne_zero, ← gt_iff_lt, size_pos_iff] at hholding
    rw [size_pos_iff, not_not] at hopen
    exact .rollover hholding hopen
  | replaceSeat seat =>
    obtain ⟨r, hr, h⟩ := bind_eq_ok h
    obtain ⟨-, h⟩ := of_refuseIf h
    obtain ⟨-, h⟩ := of_refuseIf h
    cases h
    exact .seat (okOr_eq_ok.mp hr) rfl
  | deliver =>
    obtain ⟨hopen, h⟩ := of_refuseIf h
    obtain ⟨hholding, h⟩ := of_refuseIf h
    cases h
    rw [size_pos_iff, not_not] at hopen hholding
    exact .deliver hopen hholding
  | abandon authorised reason =>
    obtain ⟨-, h⟩ := of_refuseIf h
    cases h
    exact .abandon
  | readmission quota authorised =>
    obtain ⟨-, h⟩ := of_refuseIf h
    obtain ⟨hquota, h⟩ := of_refuseIf h
    cases h
    rw [not_or, not_not, not_not] at hquota
    refine .readmission hquota.1 ?_
    intro c old hold
    have hmem : c ∈ quota.keys := by
      rw [hquota.1, ExtTreeMap.mem_keys]
      exact BTreeMap.mem_of_lookup hold
    obtain ⟨new, hnew⟩ : ∃ new, quota[c]? = some new := by
      rw [ExtTreeMap.mem_keys, ExtTreeMap.mem_iff_isSome_getElem?] at hmem
      exact Option.isSome_iff_exists.mp hmem
    have hall := List.all_eq_true.mp hquota.2 (c, new)
      (ExtTreeMap.mem_toList_iff_getElem?_eq_some.mpr hnew)
    rw [hold] at hall
    exact ⟨new, hnew, by simpa using hall⟩

end Flotilla.Convoy.Rules
