import Flotilla.Convoy.Admission
import Flotilla.Engine.MemoryLog

/-!
# The convoy machine refines its specification

Each edge runs in lockstep with its event: the same refusal, or two accepted moves
whose results agree (`sim_verdict`).  What remains is whether the rows an accepted
edge appends fit their tables (`applyWrites_effect`).
-/

namespace Flotilla.Convoy

open Lib
open Engine

/-! ### One step -/

variable {e : ConvoyEdge} {h : ConvoyHandle} {n : Nat} {p : Promise}
  {r : Resource ConvoySpec ConvoyState} {request : ConvoyRequest} {spec spec' : ConvoySpec}
  {writes : List ConvoyWrite}

theorem applyWrites_cons (write : ConvoyWrite) (version : Nat) :
    applyWrites (write :: writes) spec version =
      (write.apply spec version >>= fun spec => applyWrites writes spec version) :=
  rfl

section Append

variable {R : Type} {row : R} {table : Records R} {write : ConvoyWrite}
  (put : Records R → ConvoySpec)
  (hwrite : ∀ v, write.apply spec v = (table.append v row >>= fun table => .ok (put table)))

include hwrite

/-- A row that fits is appended to its table, whatever is written after it. -/
theorem commit_append (hfit : applyWrites (write :: writes) spec 0 = .ok spec') (version : Nat) :
    ∃ table' : Records R, table'.records = table.records ++ [row] ∧
      commitWrites (write :: writes) spec version = commitWrites writes (put table') version := by
  rw [applyWrites_cons, hwrite, bind_assoc] at hfit
  obtain ⟨_, happ, -⟩ := bind_eq_ok hfit
  obtain ⟨table', happ', hrecords⟩ :=
    Records.append_of_lt version row (Records.records_append happ).1
  refine ⟨table', hrecords, ?_⟩
  show commitWrites writes ((write.apply spec version).toOption.getD spec) version = _
  rw [hwrite, happ']
  rfl

theorem applyWrites_append (hlt : table.records.length < u32Count)
    (hrest : ∀ table, ∃ spec', applyWrites writes (put table) 0 = .ok spec') :
    ∃ spec', applyWrites (write :: writes) spec 0 = .ok spec' := by
  obtain ⟨table', happ, -⟩ := Records.append_of_lt 0 row hlt
  rw [applyWrites_cons, hwrite, happ]
  exact hrest table'

theorem applyWrites_append_full (hfull : ¬ table.records.length < u32Count) :
    applyWrites (write :: writes) spec 0 = .error .full := by
  rw [applyWrites_cons, hwrite, Records.append_of_full hfull]
  rfl

end Append

theorem apply_submission {i : Nat} {row : Submission} (hi : spec.promises.records[i]? = some p)
    (version : Nat) :
    (ConvoyWrite.submission i row).apply spec version =
      (p.submissions.append version row >>= fun submissions => .ok
        { spec with promises := spec.promises.modify i fun p => { p with submissions } }) := by
  rw [ConvoyWrite.apply, hi]
  rfl

theorem isEmpty_iff_size {K : Type} [Ord K] [Std.TransOrd K] {s : BTreeSet K} :
    s.isEmpty ↔ s.size = 0 := by
  rw [Std.ExtTreeSet.isEmpty_eq_size_beq_zero, beq_iff_eq]

theorem not_isEmpty_iff {K : Type} [Ord K] [Std.TransOrd K] {s : BTreeSet K} :
    ¬ s.isEmpty ↔ s.size > 0 := by
  rw [Rules.size_pos_iff, Std.ExtTreeSet.isEmpty_iff]

/-- If the writes fit, the work they leave is the specification's next state. -/
def Reaches (h : ConvoyHandle) (moved : ConvoyMove) (s : Rules.State) : Prop :=
  ∀ spec, applyWrites moved.2 h.spec 0 = .ok spec →
    ∀ version, absState (commitWrites moved.2 h.spec version) moved.1 = s

section Steps

variable {h : ConvoyHandle} {quota : Quota} {retired : BTreeSet DutyId}

/-- An edge about an open promise runs in lockstep if it does from the promise's row. -/
theorem lockstep_openPromise (hk : Keyed h.spec) {id : PromiseId}
    {f : Promise → Except ConvoyRefusal ConvoyMove}
    {g : Rules.PromiseRecord → Except ConvoyRefusal Rules.State}
    (hnext : ∀ i p, h.spec.promise id = some (i, p) →
      Lockstep (Reaches h) (f p) (g (absPromise p))) :
    Lockstep (Reaches h) (openPromise h id >>= f)
      (Rules.onOpen (absWork h.spec quota retired) id >>= g) := by
  rw [openPromise, Rules.onOpen, lookup_promises hk]
  cases hrow : h.spec.promise id with
  | none => exact .error _
  | some row =>
    obtain ⟨i, p⟩ := row
    simp only [Option.map_some, isOpen_absPromise]
    split_ifs
    · exact hnext i p hrow
    · exact .error _

/-- Record writes leave the convoy open. -/
theorem reaches_opened (hstate : h.state = .opened quota retired) {writes : List ConvoyWrite}
    {w : Rules.Work}
    (hw : ∀ spec, applyWrites writes h.spec 0 = .ok spec →
      ∀ version, absWork (commitWrites writes h.spec version) quota retired = w) :
    Reaches h (h.state, writes) (.opened w) := by
  intro spec hspec version
  rw [hstate]
  exact congrArg Rules.State.opened (hw spec hspec version)

/-- A write of a promise's progress. -/
theorem reaches_progress (hstate : h.state = .opened quota retired) (hk : Keyed h.spec)
    {id : PromiseId} {i : Nat} {p : Promise} (hrow : h.spec.promise id = some (i, p))
    (to_ : Progress) :
    Reaches h (h.state, progress id to_ h)
      (.opened (Rules.withPromise (absWork h.spec quota retired) id
        { absPromise p with state := to_ })) := by
  rw [progress, hrow]
  refine reaches_opened hstate fun spec _ version => ?_
  exact absWork_modify_promise hk hrow (f := fun p => { p with progress := ⟨to_, h.now⟩ })
    (fun _ => rfl) (Records.records_modify _ _ _)

variable {limits : Limits} {number : U32 → Nat}

variable (h quota retired limits number) in
/-- From an open convoy the edge and its event run in lockstep. -/
def Simulated (e : ConvoyEdge) : Prop :=
  Lockstep (Reaches h) ((convoyEdge e).gate h >>= fun _ => .ok ((convoyEdge e).effect h))
    (Rules.openStep limits (absWork h.spec quota retired) (absEdge number h.world e))

variable (hstate : h.state = .opened quota retired) (hk : Keyed h.spec)

include hstate hk

theorem sim_declare (e : Declare) : Simulated h quota retired limits number (.declare e) := by
  simp only [Simulated, convoyEdge, recordEdge, gateDeclare, bind_assoc, absEdge, Rules.openStep]
  refine .refuse ?_ fun hnew => ?_
  · rw [mem_promises_iff hk, or_comm]
    rfl
  refine .lookup_refuse (seat_eq_none_iff hk) fun row hrow => ?_
  refine .refuse (retired_iff hk hrow) fun _ => .ok (reaches_opened hstate ?_)
  intro spec hspec version
  have hnone : h.spec.promise e.promise = none :=
    Option.not_isSome_iff_eq_none.mp (not_or.mp hnew).2
  obtain ⟨promises, hrecords, hcommit⟩ := commit_append _ (fun _ => rfl) hspec version
  rw [declare, hcommit]
  exact (absWork_append_promise hk hrecords hnone).trans rfl

theorem sim_submit (e : Submit) : Simulated h quota retired limits number (.submit e) := by
  simp only [Simulated, convoyEdge, recordEdge, gateSubmit, bind_assoc, absEdge, Rules.openStep]
  refine lockstep_openPromise hk fun i p hrow => ?_
  refine .refuse Iff.rfl fun _ => .refuse (by simp) fun _ => .ok (reaches_opened hstate ?_)
  simp only [submit, hrow]
  intro spec hspec version
  obtain ⟨submissions, hrecords, hcommit⟩ :=
    commit_append _ (apply_submission (promise_eq_some hrow).1) hspec version
  rw [hcommit]
  by_cases hsub : p.progress.value = .submitted
  · rw [if_neg (not_not.mpr hsub)]
    refine (absWork_modify_promise hk hrow (f := fun p => { p with submissions }) (fun _ => rfl)
      (Records.records_modify _ _ _)).trans ?_
    simp [absPromise, hrecords, hsub, absSubmission]
  · rw [if_pos hsub]
    refine (absWork_modify_promise hk hrow
      (f := fun p => { p with submissions, progress := ⟨.submitted, h.now⟩ }) (fun _ => rfl)
      ?_).trans ?_
    · rw [Records.records_modify, Records.records_modify, List.modify_modify_eq]
      rfl
    · simp [absPromise, hrecords, absSubmission]

theorem sim_reject (e : Reject) : Simulated h quota retired limits number (.reject e) := by
  simp only [Simulated, convoyEdge, recordEdge, gateReject, bind_assoc, absEdge, Rules.openStep]
  refine lockstep_openPromise hk fun i p hrow => ?_
  exact .refuse Iff.rfl fun _ => .ok (reaches_progress hstate hk hrow _)

theorem sim_keep_observed (id : PromiseId) (submission : U32)
    (hnumber : ∀ i p, h.spec.promise id = some (i, p) →
      (number submission = p.submissions.records.length ↔
        submission.val = currentSubmission p)) :
    Simulated h quota retired limits number (.keep (.observed id submission)) := by
  simp only [Simulated, convoyEdge, recordEdge, gateKeep, bind_assoc, absEdge, Rules.openStep]
  refine lockstep_openPromise hk fun i p hrow => ?_
  refine .refuse ?_ fun _ => .ok (reaches_progress hstate hk hrow _)
  have hlength : (absPromise p).submissions.length = p.submissions.records.length :=
    List.length_map _
  rw [hlength, ne_eq, ne_eq, ← hnumber i p hrow]
  rfl

theorem sim_keep_verdict (id : PromiseId) (by_ : SeatName) (authority : Authority)
    (reason : String) :
    Simulated h quota retired limits number (.keep (.verdict id by_ authority reason)) := by
  simp only [Simulated, convoyEdge, recordEdge, gateKeep, bind_assoc, absEdge, Rules.openStep]
  refine lockstep_openPromise hk fun i p hrow => ?_
  refine .refuse ?_ fun _ => .ok (reaches_progress hstate hk hrow _)
  have hmay : mayKeep p authority = Rules.mayKeep (absPromise p) authority := by
    cases authority <;> rfl
  rw [hmay, String.isEmpty_iff]

theorem sim_retract (e : Retract) : Simulated h quota retired limits number (.retract e) := by
  simp only [Simulated, convoyEdge, recordEdge, gateRetract, bind_assoc, absEdge, Rules.openStep]
  refine lockstep_openPromise hk fun i p hrow => ?_
  refine .refuse ?_ fun _ => .ok (reaches_progress hstate hk hrow _)
  have hmay : mayRetract p e.by_ e.authority =
      Rules.mayRetract (absPromise p) e.by_ e.authority := by
    cases e.authority with
    | operator | convoySupervisor | dispatcher => rfl
    | owner | ownerSupervisor =>
      simp [mayRetract, Rules.mayRetract, absPromise, List.length_pos_iff]
  rw [hmay, String.isEmpty_iff]

theorem sim_reassign (e : Reassign) : Simulated h quota retired limits number (.reassign e) := by
  simp only [Simulated, convoyEdge, recordEdge, gateReassign, bind_assoc, absEdge, Rules.openStep]
  refine lockstep_openPromise hk fun i p hrow => ?_
  have hmay : mayReassign p e.by_ e.authority =
      Rules.mayReassign (absPromise p) e.by_ e.authority := by
    cases e.authority <;> rfl
  refine .refuse (by rw [hmay]) fun _ => ?_
  refine .lookup_refuse (seat_eq_none_iff hk) fun row hseat => ?_
  refine .refuse (retired_iff hk hseat) fun _ => .ok (reaches_opened hstate ?_)
  simp only [reassign, hrow]
  intro spec _ version
  by_cases howner : p.owner = e.to_
  · -- Nothing is written, and the owner is the one the specification puts.
    rw [if_neg (not_not.mpr howner), ← howner]
    have hkeep : h.spec.promises.records = h.spec.promises.records.modify i id := by simp
    exact absWork_modify_promise hk hrow (fun _ => rfl) hkeep
  · rw [if_pos howner]
    exact absWork_modify_promise hk hrow (f := fun p => { p with owner := e.to_ }) (fun _ => rfl)
      (Records.records_modify _ _ _)

omit hk in
theorem sim_retireDuty (e : RetireDuty) :
    Simulated h quota retired limits number (.retireDuty e) := by
  simp only [Simulated, convoyEdge, gateRetireDuty, bind_assoc, absEdge, Rules.openStep,
    retireDuty, hstate]
  refine .refuse Iff.rfl fun _ => .refuse ?_ fun _ => .ok fun _ _ _ => rfl
  rw [Std.ExtTreeSet.contains_iff_mem, ← holding_eq]
  rfl

theorem sim_addSeat (e : AddSeat) :
    Simulated h quota retired h.world.limitsRead number (.addSeat e) := by
  simp only [Simulated, convoyEdge, recordEdge, gateAddSeat, bind_assoc, absEdge, Rules.openStep]
  refine .refuse Iff.rfl fun _ => ?_
  have hnone : h.spec.seat e.seat = none ↔ e.seat ∉ (absWork h.spec quota retired).seats :=
    seat_eq_none_iff hk
  refine .refuse ?_ fun hnew => ?_
  · rw [← not_iff_not, ← hnone, Option.not_isSome_iff_eq_none]
  refine .lookup_refuse (seat_eq_none_iff hk) fun row hrow => ?_
  refine .refuse (retired_iff hk hrow) fun _ => .refuse ?_ fun _ =>
    .ok (reaches_opened hstate ?_)
  · rw [absWork, Table.size_view hk.names]
  · intro spec hspec version
    obtain ⟨seats, hrecords, hcommit⟩ := commit_append _ (fun _ => rfl) hspec version
    rw [addSeat, hcommit]
    exact (absWork_append_seat hk hrecords (Option.not_isSome_iff_eq_none.mp hnew) rfl).trans rfl

theorem sim_resupervise (e : Resupervise) :
    Simulated h quota retired limits number (.resupervise e) := by
  simp only [Simulated, convoyEdge, recordEdge, gateResupervise, bind_assoc, absEdge,
    Rules.openStep]
  refine .refuse Iff.rfl fun _ => ?_
  rw [lookup_seats hk]
  cases hrow : h.spec.seat e.seat with
  | none => exact .error _
  | some row =>
    obtain ⟨i, s⟩ := row
    refine .ok (reaches_opened hstate ?_)
    simp only [resupervise, hrow]
    intro spec _ version
    by_cases hsup : s.supervisedBy = e.supervisedBy
    · -- Nothing is written, and the supervisor is the one the specification puts.
      rw [if_neg (not_not.mpr hsup), ← hsup]
      have hkeep : h.spec.seats.records = h.spec.seats.records.modify i id := by simp
      exact absWork_modify_seat hk hrow (fun _ => rfl) (fun _ => rfl) hkeep
    · rw [if_pos hsup]
      exact absWork_modify_seat hk hrow (f := fun s => { s with supervisedBy := e.supervisedBy })
        (fun _ => rfl) (fun _ => rfl) (Records.records_modify _ _ _)

theorem sim_retireSeat (e : RetireSeat) :
    Simulated h quota retired limits number (.retireSeat e) := by
  simp only [Simulated, convoyEdge, recordEdge, gateRetireSeat, bind_assoc, absEdge,
    Rules.openStep]
  refine .refuse Iff.rfl fun _ => ?_
  refine .lookup_refuse (seat_eq_none_iff hk) fun row hrow => ?_
  refine .refuse (retired_iff hk hrow) fun _ => ?_
  have hpromises : seatOutstanding h.spec e.seat =
      Rules.seatPromises (absWork h.spec quota retired) e.seat := seatOutstanding_eq hk e.seat
  have hduties : seatDuties h.spec h.state.retired e.seat =
      Rules.seatDuties (absWork h.spec quota retired) e.seat := by
    rw [hstate]
    exact seatDuties_eq hk e.seat
  rw [hpromises, hduties]
  refine .refuse not_isEmpty_iff fun _ => .refuse not_isEmpty_iff fun _ =>
    .ok (reaches_opened hstate ?_)
  simp only [retireSeat, hrow]
  intro spec _ version
  exact absWork_retire_seat hk hrow

theorem sim_replaceSeat (seat : SeatName) :
    Simulated h quota retired h.world.limitsRead number (.replaceSeat seat) := by
  simp only [Simulated, convoyEdge, recordEdge, gateReplaceSeat, bind_assoc, absEdge,
    Rules.openStep]
  refine .lookup (lookup_seats hk seat) fun row hrow => ?_
  refine .refuse (retired_iff hk hrow) fun _ => .refuse Iff.rfl fun _ =>
    .ok (reaches_opened hstate ?_)
  obtain ⟨i, s⟩ := row
  simp only [replaceSeat, hrow]
  intro spec _ version
  exact absWork_modify_seat hk hrow (f := fun s' => { s' with replacements := s.replacements + 1 })
    (fun _ => rfl) (fun _ => rfl) (Records.records_modify _ _ _)

theorem sim_rollover (e : Rollover) : Simulated h quota retired limits number (.rollover e) := by
  simp only [Simulated, convoyEdge, gateRollover, bind_assoc, absEdge, Rules.openStep,
    rollover, hstate, ConvoyState.retired]
  rw [outstanding_eq hk quota retired, holding_eq quota]
  refine .refuse Iff.rfl fun _ => .refuse isEmpty_iff_size fun _ =>
    .refuse not_isEmpty_iff fun _ => .ok ?_
  intro spec _ version
  refine congrArg Rules.State.opened ?_
  obtain ⟨seats, hseats, hcommit⟩ := commit_generation h.spec
    (Records.ofList 0 (carriedSeats h.spec.seats.records)
      ((length_carriedSeats_le _).trans h.spec.seats.length_records_le))
    (h.spec.duties.filter fun id _ =>
      (Rules.holdingDuties (absWork h.spec quota retired)).contains id)
    (nextFloor h.spec) version
  rw [Records.records_ofList] at hseats
  rw [hcommit, absWork, hseats, view_carriedSeats hk, retiredNames_carriedSeats,
    nextFloor_eq hk quota retired]
  rfl

theorem sim_deliver : Simulated h quota retired limits number .deliver := by
  simp only [Simulated, convoyEdge, gateDeliver, bind_assoc, absEdge, Rules.openStep,
    deliver, hstate, ConvoyState.retired]
  rw [outstanding_eq hk quota retired, holding_eq quota]
  exact .refuse not_isEmpty_iff fun _ => .refuse not_isEmpty_iff fun _ => .ok fun _ _ _ => rfl

omit hk in
theorem sim_abandon (e : Abandon) : Simulated h quota retired limits number (.abandon e) := by
  simp only [Simulated, convoyEdge, gateAbandon, absEdge, Rules.openStep, abandon, hstate]
  refine .refuse ?_ fun _ => .ok fun _ _ _ => rfl
  rw [String.isEmpty_iff]
  rfl

omit hk in
theorem sim_readmission (e : Readmission) :
    Simulated h quota retired limits number (.readmission e) := by
  simp only [Simulated, convoyEdge, gateReadmission, bind_assoc, absEdge, Rules.openStep,
    readmission, hstate]
  refine .refuse Iff.rfl fun _ => .refuse ?_ fun _ => .ok fun _ _ _ => rfl
  rw [not_and_or]
  rfl

end Steps

/-- The evidence's number is the code's own reading of the current submission. -/
def NumberedBy (number : U32 → Nat) (spec : ConvoySpec) : ConvoyEdge → Prop
  | .keep (.observed id submission) => ∀ i p, spec.promise id = some (i, p) →
      (number submission = p.submissions.records.length ↔ submission.val = currentSubmission p)
  | _ => True

/-- **An edge and its event run in lockstep.** -/
theorem sim_verdict (hk : Keyed h.spec) {number : U32 → Nat}
    (hnumber : NumberedBy number h.spec e) :
    Lockstep (Reaches h) (convoy.verdict h e)
      (Rules.step h.world.limitsRead (absState h.spec h.state) (absEdge number h.world e)) := by
  cases hstate : h.state with
  | delivered | abandoned =>
    rw [verdict_ended (by rw [hstate]; nofun)]
    exact .error _
  | opened quota retired =>
    rw [verdict_opened hstate]
    show Simulated h quota retired h.world.limitsRead number e
    cases e with
    | declare e => exact sim_declare hstate hk e
    | submit e => exact sim_submit hstate hk e
    | reject e => exact sim_reject hstate hk e
    | keep e =>
      cases e with
      | observed id submission => exact sim_keep_observed hstate hk id submission hnumber
      | verdict id by_ authority reason =>
        exact sim_keep_verdict hstate hk id by_ authority reason
    | retract e => exact sim_retract hstate hk e
    | reassign e => exact sim_reassign hstate hk e
    | retireDuty e => exact sim_retireDuty hstate e
    | addSeat e => exact sim_addSeat hstate hk e
    | resupervise e => exact sim_resupervise hstate hk e
    | retireSeat e => exact sim_retireSeat hstate hk e
    | rollover e => exact sim_rollover hstate hk e
    | replaceSeat seat => exact sim_replaceSeat hstate hk seat
    | deliver => exact sim_deliver hstate hk
    | abandon e => exact sim_abandon hstate e
    | readmission e => exact sim_readmission hstate e

/-! ### Writes that fit -/

/-- The edge appends to a table that has no position left. -/
def Full (spec : ConvoySpec) : ConvoyEdge → Prop
  | .submit e => ∃ i p, spec.promise e.promise = some (i, p) ∧
      ¬ p.submissions.records.length < u32Count
  | .addSeat _ => ¬ spec.seats.records.length < u32Count
  | _ => False

section Fits

variable {spec : ConvoySpec}

theorem not_mem_ids (hk : Keyed spec) {id : PromiseId} (hnew : spec.promise id = none) :
    id ∉ spec.promises.records.map Promise.id := by
  intro hmem
  obtain ⟨p, hp, rfl⟩ := List.mem_map.mp hmem
  obtain ⟨i, hrow⟩ := promise_of_mem hk hp
  exact nomatch hnew.symm.trans hrow

/-- A new promise always fits: no two rows share an id, and this one is nobody's. -/
theorem promises_lt (hk : Keyed spec) {id : PromiseId} (hnew : spec.promise id = none) :
    spec.promises.records.length < u32Count := by
  have hcard := (List.nodup_cons.mpr ⟨not_mem_ids hk hnew, hk.ids⟩).length_le_card
  simpa using hcard

variable (spec) in
theorem applyWrites_generation (after : Records Seat) (writes : List ConvoyWrite) :
    ∃ seats, applyWrites (.generationSeats spec.seats after :: writes) spec 0 =
      applyWrites writes { spec with seats } 0 := by
  rw [applyWrites_cons, ConvoyWrite.apply,
    Records.foldlM_append_eq_ofList 0 after.length_records_le]
  exact ⟨_, rfl⟩

end Fits

/-- The writes of an edge that its gate lets through either fit, or append to a full table. -/
theorem applyWrites_effect (hk : Keyed h.spec) (hgate : (convoyEdge e).gate h = .ok ()) :
    (Full h.spec e ∧ applyWrites ((convoyEdge e).effect h).2 h.spec 0 = .error .full) ∨
      (¬ Full h.spec e ∧
        ∃ spec, applyWrites ((convoyEdge e).effect h).2 h.spec 0 = .ok spec) := by
  cases e with
  | declare e =>
    obtain ⟨hnew, -⟩ := of_refuseIf hgate
    have hnone := Option.not_isSome_iff_eq_none.mp (not_or.mp hnew).2
    exact .inr ⟨id, applyWrites_append _ (fun _ => rfl) (promises_lt hk hnone) fun _ => ⟨_, rfl⟩⟩
  | submit e =>
    simp only [convoyEdge, recordEdge, submit, Full]
    cases hrow : h.spec.promise e.promise with
    | none => exact .inr ⟨by rintro ⟨i, p, ⟨⟩, -⟩, _, rfl⟩
    | some row =>
      obtain ⟨i, p⟩ := row
      have hi := (promise_eq_some hrow).1
      by_cases hlt : p.submissions.records.length < u32Count
      · refine .inr ⟨?_, applyWrites_append _ (apply_submission hi) hlt fun _ => ?_⟩
        · rintro ⟨i', p', heq, hfull⟩
          cases heq
          exact hfull hlt
        · split_ifs <;> exact ⟨_, rfl⟩
      · exact .inl ⟨⟨i, p, rfl, hlt⟩, applyWrites_append_full _ (apply_submission hi) hlt⟩
  | addSeat e =>
    by_cases hlt : h.spec.seats.records.length < u32Count
    · exact .inr ⟨fun hfull => hfull hlt, applyWrites_append _ (fun _ => rfl) hlt fun _ => ⟨_, rfl⟩⟩
    · exact .inl ⟨hlt, applyWrites_append_full _ (fun _ => rfl) hlt⟩
  | rollover e =>
    refine .inr ⟨id, ?_⟩
    simp only [convoyEdge, rollover]
    split <;>
    · obtain ⟨seats, hseats⟩ := applyWrites_generation h.spec _ _
      rw [hseats]
      exact ⟨_, rfl⟩
  | reject | keep | retract | retireSeat | replaceSeat =>
    simp only [convoyEdge, recordEdge, progress, retireSeat, replaceSeat]
    split <;> exact .inr ⟨id, _, rfl⟩
  | reassign | resupervise =>
    simp only [convoyEdge, recordEdge, reassign, resupervise]
    split
    · exact .inr ⟨id, _, rfl⟩
    · split_ifs <;> exact .inr ⟨id, _, rfl⟩
  | retireDuty | deliver | abandon | readmission =>
    simp only [convoyEdge, retireDuty, deliver, abandon, readmission]
    split <;> exact .inr ⟨id, _, rfl⟩

/-! ### Keys -/

/-- A write that appends no row under a key that is taken. -/
def KeepsKeys (spec : ConvoySpec) : ConvoyWrite → Prop
  | .promise p => p.id ∉ spec.promises.records.map Promise.id
  | .seat s => s.name ∉ spec.seats.records.map Seat.name
  | .generationSeats _ after => (after.records.map Seat.name).Nodup
  | _ => True

/-- Each of the writes keeps the keys of whatever spec it comes to. -/
def KeepKeys (spec : ConvoySpec) : List ConvoyWrite → Prop
  | [] => True
  | write :: writes => KeepsKeys spec write ∧ ∀ spec', KeepKeys spec' writes

theorem Keyed.apply (hk : Keyed spec) {write : ConvoyWrite} (hkeep : KeepsKeys spec write)
    {version : Nat} (h : write.apply spec version = .ok spec') : Keyed spec' := by
  have hids : ∀ i f, (∀ p, (f p).id = p.id) →
      ((spec.promises.modify i f).records.map Promise.id).Nodup := by
    intro i f hf
    rw [Records.records_modify, Table.map_key_modify Promise.id hf]
    exact hk.ids
  have hnames : ∀ i f, (∀ s, (f s).name = s.name) →
      ((spec.seats.modify i f).records.map Seat.name).Nodup := by
    intro i f hf
    rw [Records.records_modify, Table.map_key_modify Seat.name hf]
    exact hk.names
  cases write with
  | promise p =>
    obtain ⟨promises, happ, h⟩ := bind_eq_ok h
    cases h
    refine ⟨?_, hk.names⟩
    rw [(Records.records_append happ).2, List.map_append, List.map_singleton]
    exact (List.nodup_append_comm).mp (List.nodup_cons.mpr ⟨hkeep, hk.ids⟩)
  | seat s =>
    obtain ⟨seats, happ, h⟩ := bind_eq_ok h
    cases h
    refine ⟨hk.ids, ?_⟩
    rw [(Records.records_append happ).2, List.map_append, List.map_singleton]
    exact (List.nodup_append_comm).mp (List.nodup_cons.mpr ⟨hkeep, hk.names⟩)
  | submission i row =>
    rw [ConvoyWrite.apply] at h
    split at h
    · obtain ⟨submissions, happ, h⟩ := bind_eq_ok h
      cases h
      exact ⟨hids i _ fun _ => rfl, hk.names⟩
    · cases h
      exact hk
  | progress i | owner i =>
    cases h
    exact ⟨hids i _ fun _ => rfl, hk.names⟩
  | supervisor i | retired i | replaced i =>
    cases h
    exact ⟨hk.ids, hnames i _ fun _ => rfl⟩
  | generationSeats before after =>
    rw [ConvoyWrite.apply, Records.foldlM_append_eq_ofList version after.length_records_le] at h
    cases h
    refine ⟨hk.ids, ?_⟩
    rw [Records.records_ofList]
    exact hkeep
  | generationPromises before =>
    cases h
    exact ⟨List.nodup_nil, hk.names⟩
  | generationDuties | promiseFloor =>
    cases h
    exact ⟨hk.ids, hk.names⟩

theorem Keyed.commit (hk : Keyed spec) (hkeep : KeepKeys spec writes) (version : Nat) :
    Keyed (commitWrites writes spec version) := by
  induction writes generalizing spec with
  | nil => exact hk
  | cons write writes ih =>
    show Keyed (commitWrites writes ((write.apply spec version).toOption.getD spec) version)
    refine ih ?_ (hkeep.2 _)
    cases happ : write.apply spec version with
    | error _ => exact hk
    | ok spec' => exact hk.apply hkeep.1 happ

/-- An edge that its gate lets through appends no key twice. -/
theorem keepKeys_effect (hk : Keyed h.spec) (hgate : (convoyEdge e).gate h = .ok ()) :
    KeepKeys h.spec ((convoyEdge e).effect h).2 := by
  cases e with
  | declare e =>
    obtain ⟨hnew, -⟩ := of_refuseIf hgate
    have hnone := Option.not_isSome_iff_eq_none.mp (not_or.mp hnew).2
    exact ⟨not_mem_ids hk hnone, fun _ => trivial⟩
  | addSeat e =>
    obtain ⟨-, hgate⟩ := of_refuseIf hgate
    obtain ⟨hnew, -⟩ := of_refuseIf hgate
    have hnone := Option.not_isSome_iff_eq_none.mp hnew
    refine ⟨fun hmem => ?_, fun _ => trivial⟩
    obtain ⟨s, hs, hname⟩ := List.mem_map.mp hmem
    obtain ⟨i, hrow⟩ := seat_of_mem hk hs
    rw [hname] at hrow
    exact nomatch hnone.symm.trans hrow
  | rollover e =>
    have hcarried : ((carriedSeats h.spec.seats.records).map Seat.name).Nodup := by
      rw [names_carriedSeats]
      exact nodup_keptSeats hk
    simp only [convoyEdge, rollover]
    split <;>
    · refine ⟨?_, fun _ => ⟨trivial, fun _ => ⟨trivial, fun _ => ⟨trivial, fun _ => trivial⟩⟩⟩⟩
      show ((Records.records _).map Seat.name).Nodup
      rw [Records.records_ofList]
      exact hcarried
  | submit e =>
    simp only [convoyEdge, recordEdge, submit]
    split
    · trivial
    · refine ⟨trivial, fun _ => ?_⟩
      split_ifs
      · exact ⟨trivial, fun _ => trivial⟩
      · trivial
  | reject | keep | retract | retireSeat | replaceSeat =>
    simp only [convoyEdge, recordEdge, progress, retireSeat, replaceSeat]
    split
    · trivial
    · exact ⟨trivial, fun _ => trivial⟩
  | reassign | resupervise =>
    simp only [convoyEdge, recordEdge, reassign, resupervise]
    split
    · trivial
    · split_ifs
      · exact ⟨trivial, fun _ => trivial⟩
      · trivial
  | retireDuty | deliver | abandon | readmission =>
    simp only [convoyEdge, retireDuty, deliver, abandon, readmission]
    split <;> trivial

theorem keyed_admitted (h : Admitted convoy request r) : Keyed r.spec := by
  obtain ⟨name, world, now, version, spec, state, hadmits, -⟩ := h
  obtain ⟨hnamed, heq⟩ := named_of_admits hadmits
  cases heq
  exact keyed_spec hnamed now

theorem keyed_applied {r r' : Resource ConvoySpec ConvoyState} (hk : Keyed r.spec)
    (h : Applied convoy r e r') : Keyed r'.spec := by
  obtain ⟨world, now, version, moved, spec, hv, -, rfl⟩ := h.verdict convoy_sound
  obtain ⟨-, -, hgate, rfl⟩ := Machine.verdict_eq_ok hv
  exact hk.commit (keepKeys_effect hk hgate) version

theorem keyed_run {start r : Resource ConvoySpec ConvoyState}
    {allowed : Resource ConvoySpec ConvoyState → ConvoyEdge → Prop} {edges : List ConvoyEdge}
    (hstart : Admitted convoy request start) (run : Run convoy allowed start edges r) :
    Keyed r.spec :=
  run.invariant (keyed_admitted hstart)
    fun _ _ _ hk _ happlied => keyed_applied hk happlied

/-! ### A home of convoys -/

/-- The edge is evidence about a promise that holds as many submissions as fit. -/
def LastEvidence (spec : ConvoySpec) : ConvoyEdge → Prop
  | .keep (.observed id _) => ∃ i p, spec.promise id = some (i, p) ∧
      ¬ p.submissions.records.length < u32Count
  | _ => False

theorem numberedBy_val (h : ¬ LastEvidence spec e) : NumberedBy Fin.val spec e := by
  cases e with
  | keep e =>
    cases e with
    | observed id submission =>
      intro i p hrow
      have hlt : p.submissions.records.length < u32Count := by
        by_contra hfull
        exact h ⟨i, p, hrow, hfull⟩
      have hcurrent : currentSubmission p = p.submissions.records.length := by
        rw [currentSubmission]
        omega
      rw [hcurrent]
    | verdict id by_ authority reason => trivial
  | _ => trivial

section Home

variable {L : Type} (log : Log L ConvoySpec ConvoyState ConvoyLabel ConvoyEdge ConvoyWrite)

abbrev ConvoyHome (L : Type) := Home L ConvoySpec ConvoyState

abbrev ConvoyError := WriteError ConvoyLabel ConvoyEdge ConvoyRefusal

/-- The answer of a home, and the home after it, when the specification answers `next`: its
refusal; or, for an accepted write, the error of a full table, or what follows from the answer of
the log that was `asked`: its error if it refused, and else a resource at its version that the
specification's next state describes. -/
def Follows {A : Type} (home : ConvoyHome L) (name : String) (full : Prop)
    (asked : Except String Nat × L → Prop) (answer : Except ConvoyError A × ConvoyHome L) :
    Except ConvoyRefusal Rules.State → Prop
  | .error refusal => answer = (.error (.refused refusal), home)
  | .ok next =>
    (full ∧ answer = (.error (.log RecordsFull.full.render), home)) ∨
      (¬ full ∧ ∃ logged log, asked (logged, log) ∧
        match logged with
        | .error message => answer = (.error (.log message), { home with log })
        | .ok version => ∃ value r, answer = (.ok value, ⟨home.resources.insert name r, log⟩) ∧
            r.version = version ∧ absState r.spec r.state = next)

variable {e : ConvoyEdge} {home : ConvoyHome L} {name : String}
  {r : Resource ConvoySpec ConvoyState} {request : ConvoyRequest}

/-- What the log answers when it is asked to take the admitted convoy. -/
def AsksCreate (home : ConvoyHome L) (name : String) (request : ConvoyRequest)
    (world : ConvoyWorld) (now : Timestamp) (answer : Except String Nat × L) : Prop :=
  ∃ spec state, convoy.admits world now request = .ok (spec, state) ∧
    log.create home.log { name, spec, state, since := now, version := 0 } = answer

/-- What the log answers when it is asked to take the decided edge. -/
def AsksEdge (home : ConvoyHome L) (r : Resource ConvoySpec ConvoyState) (e : ConvoyEdge)
    (world : ConvoyWorld) (now : Timestamp) (answer : Except String Nat × L) : Prop :=
  ∃ moved, convoy.decide r e world now = .ok moved ∧
    log.edgeWithWrites home.log r { r with state := moved.1, since := r.sinceOf moved.1 now }
      { edge := e, fromLabel := StateValue.label r.state, toLabel := StateValue.label moved.1,
        at_ := now } moved.2 = answer

/-- What a home decides before it asks its log. -/
theorem decide_cases (hk : Keyed r.spec) (hevidence : ¬ LastEvidence r.spec e) (world : ConvoyWorld)
    (now : Timestamp) :
    match Rules.step world.limitsRead (absState r.spec r.state) (absEdge Fin.val world e) with
    | .error refusal => convoy.decide r e world now = .error (.refused refusal)
    | .ok next =>
      (Full r.spec e ∧ convoy.decide r e world now = .error (.log RecordsFull.full.render)) ∨
        (¬ Full r.spec e ∧ ∃ moved, convoy.decide r e world now = .ok moved ∧
          ∀ version, absState (r.commit moved version now).spec moved.1 = next) := by
  have hsim := sim_verdict (h := r.handle world now) hk (numberedBy_val hevidence)
  have hdecide : convoy.decide r e world now =
      (((convoy.verdict (r.handle world now) e).mapError .refused) >>= fun moved =>
        ((applyWrites moved.2 r.spec 0).mapError fun error => .log error.render) >>= fun _ =>
          .ok moved) := by
    rw [Machine.decide, convoy_sound.step_eq_verdict]
    rfl
  cases hspec : Rules.step world.limitsRead (absState r.spec r.state) (absEdge Fin.val world e) with
  | error refusal =>
    have hv := hsim.error_iff.mpr hspec
    rw [hdecide, hv]
    rfl
  | ok next =>
    obtain ⟨moved, hv, hreaches⟩ := hsim.ok_right hspec
    obtain ⟨-, -, hgate, rfl⟩ := Machine.verdict_eq_ok hv
    have hrest : convoy.decide r e world now = ((applyWrites ((convoyEdge e).effect
        (r.handle world now)).2 (r.handle world now).spec 0).mapError fun error =>
          .log error.render) >>= fun _ => .ok ((convoyEdge e).effect (r.handle world now)) := by
      rw [hdecide, hv]
      rfl
    rw [hrest]
    rcases applyWrites_effect hk hgate with ⟨hfull, hwrites⟩ |
      ⟨hfits, spec, hwrites⟩
    · refine .inl ⟨hfull, ?_⟩
      rw [hwrites]
      rfl
    · refine .inr ⟨hfits, _, ?_, hreaches spec hwrites⟩
      rw [hwrites]
      rfl

/-- A home applies an edge as the specification says. -/
theorem apply_follows (hr : home.resources[name]? = some r) (hk : Keyed r.spec)
    (hevidence : ¬ LastEvidence r.spec e) (world : ConvoyWorld) (now : Timestamp) :
    Follows home name (Full r.spec e) (AsksEdge log home r e world now)
      (home.apply convoy log name e world now)
      (Rules.step world.limitsRead (absState r.spec r.state) (absEdge Fin.val world e)) := by
  have hcases := decide_cases hk hevidence world now
  rw [Home.apply, hr]
  dsimp only
  cases hspec : Rules.step world.limitsRead (absState r.spec r.state) (absEdge Fin.val world e) with
  | error refusal =>
    rw [hspec] at hcases
    rw [hcases]
    rfl
  | ok next =>
    rw [hspec] at hcases
    rcases hcases with ⟨hfull, hdecide⟩ | ⟨hfits, moved, hdecide, habs⟩
    · rw [hdecide]
      exact .inl ⟨hfull, rfl⟩
    · rw [hdecide]
      dsimp only
      cases hlog : log.edgeWithWrites home.log r _ _ moved.2 with
      | mk answer log' =>
        refine .inr ⟨hfits, answer, log', ⟨moved, hdecide, hlog⟩, ?_⟩
        cases answer with
        | error message => rfl
        | ok version => exact ⟨_, _, rfl, rfl, habs version⟩

/-- A home admits a request as the specification says. -/
theorem create_follows (hfree : home.resources[name]? = none) (hnamed : request.Named)
    (world : ConvoyWorld) (now : Timestamp) :
    Follows home name False (AsksCreate log home name request world now)
      (home.create convoy log name request world now)
      (Rules.admits world.limitsRead (absRequest world request)) := by
  have hsim := lockstep_admits world hnamed now
  rw [Home.create, Home.createWith, hfree]
  cases hspec : Rules.admits world.limitsRead (absRequest world request) with
  | error refusal =>
    have hadmits : convoy.admits world now request = .error refusal := hsim.error_iff.mpr hspec
    rw [hadmits]
    rfl
  | ok next =>
    obtain ⟨⟨spec, state⟩, hadmits, habs⟩ := hsim.ok_right hspec
    have hopened : state = .opened request.quota ∅ := congrArg Prod.snd (named_of_admits hadmits).2
    rw [show convoy.admits world now request = .ok (spec, state) from hadmits]
    subst hopened
    dsimp only
    rw [Log.createResource]
    cases hlog : log.create home.log _ with
    | mk answer log' =>
      refine .inr ⟨id, answer, log', ⟨spec, _, hadmits, hlog⟩, ?_⟩
      cases answer with
      | error message => rfl
      | ok version => exact ⟨_, _, rfl, rfl, habs⟩

/-- A request that names a seat twice, which no map does, is refused. -/
theorem create_refused (hfree : home.resources[name]? = none) (hnamed : ¬ request.Named)
    (world : ConvoyWorld) (now : Timestamp) :
    ∃ refusal,
      home.create convoy log name request world now = (.error (.refused refusal), home) := by
  rw [Home.create, Home.createWith, hfree]
  cases hadmits : convoy.admits world now request with
  | error refusal => exact ⟨refusal, rfl⟩
  | ok admitted => exact absurd (named_of_admits hadmits).1 hnamed

/-- **Whatever a home of convoys was asked before, it creates and changes convoys as the
specification says.**  An accepted edge that appends to a full table is refused as such; evidence
about a promise that holds as many submissions as fit is left out. -/
theorem home_follows (l : L) (calls : List (Call ConvoyRequest ConvoyEdge ConvoyWorld))
    (name : String) (world : ConvoyWorld) (now : Timestamp) :
    (∀ request, (Home.run convoy log l calls).resources[name]? = none →
      (request.Named →
        Follows (Home.run convoy log l calls) name False
          (AsksCreate log (Home.run convoy log l calls) name request world now)
          ((Home.run convoy log l calls).create convoy log name request world now)
          (Rules.admits world.limitsRead (absRequest world request))) ∧
      (¬ request.Named → ∃ refusal,
        (Home.run convoy log l calls).create convoy log name request world now =
          (.error (.refused refusal), Home.run convoy log l calls))) ∧
    (∀ e r, (Home.run convoy log l calls).resources[name]? = some r → ¬ LastEvidence r.spec e →
      Follows (Home.run convoy log l calls) name (Full r.spec e)
        (AsksEdge log (Home.run convoy log l calls) r e world now)
        ((Home.run convoy log l calls).apply convoy log name e world now)
        (Rules.step world.limitsRead (absState r.spec r.state) (absEdge Fin.val world e))) := by
  refine ⟨fun request hfree => ⟨fun hnamed => create_follows log hfree hnamed world now,
    fun hnamed => create_refused log hfree hnamed world now⟩, fun e r hr hevidence => ?_⟩
  obtain ⟨request, start, edges, hstart, run⟩ := Home.exists_run log l calls hr
  exact apply_follows log hr (keyed_run hstart run) hevidence world now

end Home

/-! ### A promise that is submitted again and again -/

def lead : SeatName := ⟨"lead", "1"⟩

def change : PromiseId := ⟨0, by decide⟩

def openWorld : ConvoyWorld where
  authority _ := some true
  durable _ := some true
  project _ := some ()
  limits := none

/-- One seat, and one promise of it. -/
def leadRequest : ConvoyRequest where
  project := "harbour"
  promises := Std.ExtTreeMap.ofList [(change, {
    label := "change", kind := "pr", target := "repo", source := .template,
    owner := lead })] compare
  duties := ∅
  seats := [{ role := "lead", seat := "1", parent := none, supervisedBy := "fleet" }]
  quota := ∅
  priority := 0
  seatsFit := by decide

def submitAgain : ConvoyEdge :=
  .submit { promise := change, by_ := lead, address := "pr/1", revision := "a", durable := "pr/1" }

/-- The convoy is created, and its promise submitted `n` times. -/
def submissions (n : Nat) : List (Call ConvoyRequest ConvoyEdge ConvoyWorld) :=
  .create "convoy" leadRequest openWorld 0 ::
    List.replicate n (.apply "convoy" submitAgain openWorld 0)

/-- The convoy is open, and its promise too, with `n` submissions. -/
def SubmittedTimes (n : Nat) (s : Rules.State) : Prop :=
  ∃ w p, s = .opened w ∧ w.promises[change]? = some p ∧ p.isOpen = true ∧ p.owner = lead ∧
    p.submissions.length = n

theorem step_submitAgain {s : Rules.State} (h : SubmittedTimes n s) (limits : Limits) :
    ∃ s', Rules.step limits s (absEdge Fin.val openWorld submitAgain) = .ok s' ∧
      SubmittedTimes (n + 1) s' := by
  obtain ⟨w, p, rfl, hp, hopen, howner, hlength⟩ := h
  have honOpen : Rules.onOpen w change = .ok p := by
    rw [Rules.onOpen, hp]
    exact if_pos hopen
  refine ⟨_, (bind_ok honOpen).trans ((refuseIf_bind (not_not.mpr howner.symm)).trans
    (refuseIf_bind (not_not.mpr rfl))), _, _, rfl, Std.ExtTreeMap.getElem?_insert_self, rfl,
    howner, ?_⟩
  simp [hlength]

theorem full_submitAgain (hk : Keyed r.spec) (h : SubmittedTimes n (absState r.spec r.state)) :
    Full r.spec submitAgain ↔ ¬ n < u32Count := by
  obtain ⟨w, p, hs, hp, -, -, hlength⟩ := h
  cases hstate : r.state with
  | delivered | abandoned => rw [hstate] at hs; cases hs
  | opened quota retired =>
    rw [hstate] at hs
    cases hs
    rw [lookup_promises hk] at hp
    obtain ⟨⟨i, p'⟩, hrow, rfl⟩ := Option.map_eq_some_iff.mp hp
    have hlength : p'.submissions.records.length = n := by simpa [absPromise] using hlength
    constructor
    · rintro ⟨i', p'', hrow', hfull⟩
      cases hrow.symm.trans hrow'
      rwa [hlength] at hfull
    · intro hfull
      exact ⟨i, p', hrow, by rwa [hlength]⟩

/-- The convoy as it is created. -/
def leadConvoy : Resource ConvoySpec ConvoyState where
  name := "convoy"
  spec := leadRequest.spec 0
  state := .opened ∅ ∅
  since := 0
  version := 1

theorem submissions_zero :
    (Home.memory convoy (submissions 0)).resources["convoy"]? = some leadConvoy := by
  rfl

/-- The same request with its seat twice. -/
def twiceRequest : ConvoyRequest :=
  { leadRequest with seats := leadRequest.seats ++ leadRequest.seats, seatsFit := by decide }

theorem home_follows_lead :
    Follows (Home.memory convoy (submissions 0)) "next" False
        (AsksCreate memoryLog (Home.memory convoy (submissions 0)) "next" leadRequest openWorld 1)
        ((Home.memory convoy (submissions 0)).create convoy memoryLog "next" leadRequest
          openWorld 1)
        (Rules.admits openWorld.limitsRead (absRequest openWorld leadRequest)) ∧
      (∃ refusal, (Home.memory convoy (submissions 0)).create convoy memoryLog "next" twiceRequest
        openWorld 1 = (.error (.refused refusal), Home.memory convoy (submissions 0))) ∧
      Follows (Home.memory convoy (submissions 0)) "convoy" (Full leadConvoy.spec submitAgain)
        (AsksEdge memoryLog (Home.memory convoy (submissions 0)) leadConvoy submitAgain openWorld 1)
        ((Home.memory convoy (submissions 0)).apply convoy memoryLog "convoy" submitAgain
          openWorld 1)
        (Rules.step openWorld.limitsRead (absState leadConvoy.spec leadConvoy.state)
          (absEdge Fin.val openWorld submitAgain)) := by
  have hnext := (home_follows memoryLog .new (submissions 0) "next" openWorld 1).1
  have hconvoy := (home_follows memoryLog .new (submissions 0) "convoy" openWorld 1).2
  refine ⟨(hnext leadRequest rfl).1 ?_, (hnext twiceRequest rfl).2 ?_,
    hconvoy submitAgain _ submissions_zero id⟩
  · show (leadRequest.seats.map Seat.name).Nodup
    decide
  · show ¬ (twiceRequest.seats.map Seat.name).Nodup
    decide

theorem submissions_reach (hn : n ≤ u32Count) :
    ∃ r, (Home.memory convoy (submissions n)).resources["convoy"]? = some r ∧
      SubmittedTimes n (absState r.spec r.state) := by
  induction n with
  | zero =>
    refine ⟨_, submissions_zero, absWork (leadRequest.spec 0) ∅ ∅, {
      promise := { kind := "pr", target := "repo" }, source := .template, owner := lead,
      state := .pending, submissions := [] }, rfl, ?_, rfl, rfl, rfl⟩
    rfl
  | succ n ih =>
    obtain ⟨r, hr, hn'⟩ := ih (Nat.le_of_succ_le hn)
    obtain ⟨request, start, edges, hstart, run⟩ := Home.exists_run memoryLog .new _ hr
    have hk := keyed_run hstart run
    obtain ⟨s', hstep, hs'⟩ := step_submitAgain hn' openWorld.limitsRead
    have hcases := decide_cases hk (e := submitAgain) id openWorld 0
    rw [hstep] at hcases
    rcases hcases with ⟨hfull, -⟩ | ⟨-, moved, hdecide, habs⟩
    · exact absurd (Nat.lt_of_succ_le hn) ((full_submitAgain hk hn').mp hfull)
    · have hsnoc : submissions (n + 1) =
          submissions n ++ [.apply "convoy" submitAgain openWorld 0] := by
        simp [submissions, List.replicate_succ']
      rw [hsnoc, Home.memory_snoc]
      refine ⟨_, Home.apply_memory hr hdecide, ?_⟩
      show SubmittedTimes (n + 1) (absState (r.commit moved _ 0).spec moved.1)
      rw [habs]
      exact hs'

/-- The specification takes one more submission than the code has positions for. -/
theorem home_follows_full :
    ∃ r next, (Home.memory convoy (submissions u32Count)).resources["convoy"]? = some r ∧
      Rules.step openWorld.limitsRead (absState r.spec r.state)
        (absEdge Fin.val openWorld submitAgain) = .ok next ∧
      ((Home.memory convoy (submissions u32Count)).apply convoy memoryLog "convoy" submitAgain
        openWorld 0).1.toOption.isNone = true := by
  obtain ⟨r, hr, hn⟩ := submissions_reach (le_refl u32Count)
  obtain ⟨request, start, edges, hstart, run⟩ := Home.exists_run memoryLog .new _ hr
  have hk := keyed_run hstart run
  obtain ⟨next, hstep, -⟩ := step_submitAgain hn openWorld.limitsRead
  refine ⟨r, next, hr, hstep, ?_⟩
  have hfollows := apply_follows memoryLog hr hk (e := submitAgain) id openWorld 0
  rw [hstep] at hfollows
  rcases hfollows with ⟨-, hanswer⟩ | ⟨hfits, -⟩
  · rw [hanswer]
    rfl
  · exact absurd ((full_submitAgain hk hn).mpr (lt_irrefl _)) hfits

end Flotilla.Convoy
