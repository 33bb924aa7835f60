import Flotilla.Convoy.Simulation

/-!
# What every convoy keeps

One invariant of the specification's work, kept by every accepted event, and the
same of a convoy's own rows, in every state that a run of edges reaches.
-/

namespace Flotilla.Convoy

open Lib Std
open Engine

namespace Rules

/-- The work of a state. -/
def State.work : State → Work
  | .opened w | .delivered w | .abandoned w _ => w

/-- **The invariant of a convoy's work.** -/
structure Good (w : Work) : Prop where
  floor : ∀ id ∈ w.promises, w.promiseFloor ≤ id.val
  owners : ∀ (id : PromiseId) (p : PromiseRecord), w.promises[id]? = some p → p.owner ∈ w.seats
  dutyOwners : ∀ (id : DutyId) (d : Duty), w.spec.duties[id]? = some d → d.owner ∈ w.seats
  closed : Closed w.seats
  acyclic : Acyclic (parentAt w.seats)
  submitted : ∀ (id : PromiseId) (p : PromiseRecord), w.promises[id]? = some p →
    p.state = .submitted → p.submissions ≠ []
  obliged : (∃ id, id ∈ w.promises) ∨
    ∃ (id : DutyId) (d : Duty), w.spec.duties[id]? = some d ∧ d.scope = .lifetime
  /-- What lets a rollover drop the retired seats. -/
  released : ∀ (id : DutyId) (d : Duty), w.spec.duties[id]? = some d → d.scope = .lifetime →
    d.owner ∈ w.retiredSeats → id ∈ w.retired

variable {w : Work} {e : Event} {id : PromiseId} {name seat : SeatName} {r : SeatRecord} {s : State}

theorem mem_openPromises :
    id ∈ openPromises w ↔ ∃ p, w.promises[id]? = some p ∧ p.isOpen = true := by
  rw [openPromises, Table.mem_keysWhere]

theorem mem_holdingDuties {id : DutyId} :
    id ∈ holdingDuties w ↔
      ∃ d : Duty, w.spec.duties[id]? = some d ∧ d.scope = .lifetime ∧ id ∉ w.retired := by
  rw [holdingDuties, Table.mem_keysWhere]
  simp [lifetime]

theorem mem_liveSeats : name ∈ liveSeats w ↔ name ∈ w.seats ∧ name ∉ w.retiredSeats := by
  rw [liveSeats, Table.mem_keysWhere, ExtTreeMap.mem_iff_isSome_getElem?,
    Option.isSome_iff_exists]
  simp

theorem lookup_withPromise (id other : PromiseId) (p : PromiseRecord) :
    (withPromise w id p).promises[other]? = if id = other then some p else w.promises[other]? := by
  rw [withPromise, ExtTreeMap.getElem?_insert]
  simp only [Std.compare_eq_iff_eq]

theorem lookup_withSeat (seat other : SeatName) :
    (withSeat w seat r).seats[other]? = if seat = other then some r else w.seats[other]? := by
  rw [withSeat, ExtTreeMap.getElem?_insert]
  simp only [Std.compare_eq_iff_eq]

theorem mem_withSeat {seat other : SeatName} (h : other ∈ w.seats) :
    other ∈ (withSeat w seat r).seats :=
  ExtTreeMap.mem_insert.mpr (.inr h)

/-- A promise is put, if its owner is a seat and it is submitted only with a submission. -/
theorem Good.withPromise (hw : Good w) {p : PromiseRecord} (hfloor : w.promiseFloor ≤ id.val)
    (howner : p.owner ∈ w.seats) (hsub : p.state = .submitted → p.submissions ≠ []) :
    Good (withPromise w id p) where
  floor := by
    intro other hother
    rcases ExtTreeMap.mem_insert.mp hother with heq | hother
    · cases Std.compare_eq_iff_eq.mp heq
      exact hfloor
    · exact hw.floor other hother
  owners := by
    intro other p' hp'
    rw [lookup_withPromise] at hp'
    split_ifs at hp'
    · cases hp'
      exact howner
    · exact hw.owners other p' hp'
  dutyOwners := hw.dutyOwners
  closed := hw.closed
  acyclic := hw.acyclic
  submitted := by
    intro other p' hp'
    rw [lookup_withPromise] at hp'
    split_ifs at hp'
    · cases hp'
      exact hsub
    · exact hw.submitted other p' hp'
  obliged := .inl ⟨id, ExtTreeMap.mem_insert_self⟩
  released := hw.released

theorem parentAt_withSeat (other : SeatName) :
    parentAt (withSeat w seat r).seats other =
      if seat = other then r.parent else parentAt w.seats other := by
  rw [parentAt, lookup_withSeat]
  split_ifs
  · rfl
  · rfl

/-- A seat is put, if that leaves the parents closed and acyclic. -/
theorem Good.withSeat (hw : Good w) (hclosed : Closed (withSeat w seat r).seats)
    (hacyclic : Acyclic (parentAt (Rules.withSeat w seat r).seats)) :
    Good (Rules.withSeat w seat r) where
  floor := hw.floor
  owners id p hp := mem_withSeat (hw.owners id p hp)
  dutyOwners id d hd := mem_withSeat (hw.dutyOwners id d hd)
  closed := hclosed
  acyclic := hacyclic
  submitted := hw.submitted
  obliged := hw.obliged
  released := hw.released

theorem Good.addSeat (hw : Good w) {seat parent : SeatName} (hnew : seat ∉ w.seats)
    (hparent : parent ∈ w.seats) (hr : r.parent = some parent) :
    Good (Rules.withSeat w seat r) := by
  have hne : parent ≠ seat := fun h => hnew (h ▸ hparent)
  refine hw.withSeat ?_ (hw.acyclic.of_leaf seat ?_ ?_)
  · intro a b hab
    rw [parentAt_withSeat] at hab
    split_ifs at hab
    · cases hr.symm.trans hab
      exact mem_withSeat hparent
    · exact mem_withSeat (hw.closed a b hab)
  · intro a hab
    rw [parentAt_withSeat] at hab
    split_ifs at hab
    · exact hne (Option.some.inj (hr.symm.trans hab))
    · exact hnew (hw.closed a seat hab)
  · intro a b ha hab
    rw [parentAt_withSeat, if_neg (Ne.symm ha)] at hab
    exact hab

theorem Good.changeSeat (hw : Good w) {r r' : SeatRecord} (hr : w.seats[seat]? = some r)
    (hparent : r'.parent = r.parent) : Good (Rules.withSeat w seat r') := by
  have hsame : parentAt (Rules.withSeat w seat r').seats = parentAt w.seats := by
    funext a
    rw [parentAt_withSeat]
    split_ifs with ha
    · cases ha
      rw [parentAt, hr, hparent]
      rfl
    · rfl
  refine hw.withSeat ?_ (by rw [hsame]; exact hw.acyclic)
  intro a b hab
  rw [hsame] at hab
  exact mem_withSeat (hw.closed a b hab)

/-! ### The next generation -/

theorem mem_seats_nextGeneration : name ∈ (nextGeneration w).seats ↔ name ∈ liveSeats w := by
  rw [nextGeneration, ExtTreeMap.mem_map, ExtTreeMap.mem_iff_isSome_getElem?,
    ExtTreeMap.getElem?_filter', mem_liveSeats, ExtTreeMap.mem_iff_isSome_getElem?]
  cases hname : w.seats[name]? with
  | none => simp
  | some r =>
    have hmem : name ∈ w.seats := BTreeMap.mem_of_lookup hname
    simp [Option.filter, mem_liveSeats, hmem]

theorem parentAt_nextGeneration {a b : SeatName}
    (h : parentAt (nextGeneration w).seats a = some b) :
    parentAt w.seats a = some b ∧ b ∈ liveSeats w := by
  rw [parentAt, nextGeneration, ExtTreeMap.getElem?_map, ExtTreeMap.getElem?_filter'] at h
  obtain ⟨r', hr', hparent⟩ := Option.bind_eq_some_iff.mp h
  obtain ⟨r, hr, rfl⟩ := Option.map_eq_some_iff.mp hr'
  obtain ⟨hr, -⟩ := Option.filter_eq_some_iff.mp hr
  obtain ⟨hparent, hlive⟩ := Option.filter_eq_some_iff.mp hparent
  refine ⟨?_, hlive⟩
  rw [parentAt, hr]
  exact hparent

theorem lookup_duties_nextGeneration {id : DutyId} {d : Duty} :
    (nextGeneration w).spec.duties[id]? = some d ↔
      w.spec.duties[id]? = some d ∧ id ∈ holdingDuties w := by
  rw [nextGeneration, ExtTreeMap.getElem?_filter', Option.filter_eq_some_iff,
    ExtTreeSet.contains_iff_mem]

theorem Good.nextGeneration (hw : Good w) (hholding : holdingDuties w ≠ ∅) :
    Good (Rules.nextGeneration w) where
  floor id hid := absurd hid ExtTreeMap.not_mem_empty
  owners id p hp := absurd (BTreeMap.mem_of_lookup hp) ExtTreeMap.not_mem_empty
  dutyOwners := by
    intro id d hd
    obtain ⟨hd, hholds⟩ := lookup_duties_nextGeneration.mp hd
    obtain ⟨d', hd', hscope, hunretired⟩ := mem_holdingDuties.mp hholds
    cases hd.symm.trans hd'
    refine mem_seats_nextGeneration.mpr (mem_liveSeats.mpr ⟨hw.dutyOwners id d hd, ?_⟩)
    exact fun hretired => hunretired (hw.released id d hd hscope hretired)
  closed := by
    intro a b hab
    exact mem_seats_nextGeneration.mpr (parentAt_nextGeneration hab).2
  acyclic := hw.acyclic.mono fun a b hab => (parentAt_nextGeneration hab).1
  submitted id p hp := absurd (BTreeMap.mem_of_lookup hp) ExtTreeMap.not_mem_empty
  obliged := by
    obtain ⟨id, hid⟩ : ∃ id, id ∈ holdingDuties w := by
      by_contra hnone
      exact hholding (ExtTreeSet.eq_empty_iff_forall_not_mem.mpr fun id hid => hnone ⟨id, hid⟩)
    obtain ⟨d, hd, hscope, -⟩ := mem_holdingDuties.mp hid
    exact .inr ⟨id, d, lookup_duties_nextGeneration.mpr ⟨hd, hid⟩, hscope⟩
  released id d _ _ howner := absurd howner ExtTreeSet.not_mem_empty

/-- **Every accepted event keeps the invariant.** -/
theorem Good.moves (hw : Good w) (h : Moves w e s) : Good s.work := by
  cases h with
  | declare _ hfloor howner _ => exact hw.withPromise hfloor howner nofun
  | progress hp _ howner hsub =>
    refine hw.withPromise (hw.floor _ (BTreeMap.mem_of_lookup hp)) ?_ hsub
    rw [howner]
    exact hw.owners _ _ hp
  | @reassign _ _ _ _ p hp _ howner _ =>
    exact hw.withPromise (hw.floor _ (BTreeMap.mem_of_lookup hp)) howner (hw.submitted _ p hp)
  | retireDuty =>
    exact { hw with
      released := fun id d hd hscope howner =>
        ExtTreeSet.mem_insert.mpr (.inr (hw.released id d hd hscope howner)) }
  | addSeat hnew hparent => exact hw.addSeat hnew hparent rfl
  | seat hr hparent => exact hw.changeSeat hr hparent
  | @retireSeat seat _ _ _ hduties =>
    refine { hw with released := fun id d hd hscope howner => ?_ }
    rcases ExtTreeSet.mem_insert.mp howner with heq | howner
    · -- The seat has no duty that has not ended.
      have hnot : id ∉ seatDuties w seat := by
        rw [hduties]
        exact ExtTreeSet.not_mem_empty
      rw [seatDuties, Table.mem_keysWhere] at hnot
      by_contra hin
      have hunretired : id ∉ w.retired := hin
      refine hnot ⟨d, hd, ?_⟩
      simp only [decide_eq_true_eq]
      refine ⟨(compare_eq_iff_eq.mp heq).symm, ?_⟩
      simpa [liveDuty, hscope] using hunretired
    · exact hw.released id d hd hscope howner
  | rollover hholding _ => exact hw.nextGeneration hholding
  | deliver _ _ => exact hw
  | abandon => exact hw
  | readmission _ _ => exact { hw with }

/-- What a delivered convoy has settled. -/
def Settled : State → Prop
  | .delivered w => openPromises w = ∅ ∧ holdingDuties w = ∅
  | _ => True

theorem Settled.moves (h : Moves w e s) : Settled s := by
  cases h with
  | deliver hopen hholding => exact ⟨hopen, hholding⟩
  | _ => trivial

/-- No class is added or dropped, and no class's cap falls. -/
def QuotaKept (q q' : Quota) : Prop :=
  q'.keys = q.keys ∧ ∀ (c : VesselClass) (old : Nat), q[c]? = some old →
    ∃ new, q'[c]? = some new ∧ old ≤ new

theorem QuotaKept.refl (q : Quota) : QuotaKept q q := ⟨rfl, fun _ old h => ⟨old, h, le_rfl⟩⟩

theorem QuotaKept.trans {q q' q'' : Quota} (h : QuotaKept q q') (h' : QuotaKept q' q'') :
    QuotaKept q q'' := by
  refine ⟨h'.1.trans h.1, fun c old hold => ?_⟩
  obtain ⟨new, hnew, hle⟩ := h.2 c old hold
  obtain ⟨new', hnew', hle'⟩ := h'.2 c new hnew
  exact ⟨new', hnew', hle.trans hle'⟩

theorem QuotaKept.moves (h : Moves w e s) : QuotaKept w.quota s.work.quota := by
  cases h with
  | readmission hkeys hcounts => exact ⟨hkeys, hcounts⟩
  | _ => exact .refl _

theorem Good.admits {limits : Limits} {request : Request}
    (h : Rules.admits limits request = .ok s) : Good s.work ∧ Settled s := by
  obtain ⟨hobliged, h⟩ := of_refuseIf h
  obtain ⟨-, h⟩ := of_refuseIf h
  obtain ⟨hclosed, h⟩ := of_refuseIf h
  obtain ⟨hacyclic, h⟩ := of_refuseIf h
  obtain ⟨-, h⟩ := of_refuseIf h
  cases h
  rw [not_not] at hclosed hacyclic
  simp only [seatsClosed, Bool.and_eq_true, List.all_eq_true, Prod.forall,
    ExtTreeMap.mem_toList_iff_getElem?_eq_some, ExtTreeMap.contains_iff_mem,
    Option.all_eq_true] at hclosed
  obtain ⟨⟨hpromises, hduties⟩, hparents⟩ := hclosed
  have hseats : Closed request.seats := by
    intro a b hab
    obtain ⟨r, hr, hparent⟩ := Option.bind_eq_some_iff.mp hab
    exact hparents a r hr b hparent
  refine ⟨⟨fun _ _ => Nat.zero_le _, ?_, hduties, hseats, (acyclic_iff hseats).mp hacyclic, ?_, ?_,
    fun _ _ _ _ howner => absurd howner ExtTreeSet.not_mem_empty⟩, trivial⟩
  · intro id p hp
    simp only [State.work, ExtTreeMap.getElem?_map] at hp
    obtain ⟨p', hp', rfl⟩ := Option.map_eq_some_iff.mp hp
    exact hpromises id p' hp'
  · intro id p hp hsub
    simp only [State.work, ExtTreeMap.getElem?_map] at hp
    obtain ⟨p', hp', rfl⟩ := Option.map_eq_some_iff.mp hp
    cases hsub
  · rw [not_and_or, not_not] at hobliged
    rcases hobliged with hsome | hlifetime
    · obtain ⟨id, hid⟩ := List.exists_mem_of_length_pos (Nat.pos_of_ne_zero hsome)
      refine .inl ⟨id, ?_⟩
      rw [State.work, ExtTreeMap.mem_map]
      exact ExtTreeMap.mem_keys.mp hid
    · obtain ⟨⟨id, d⟩, hmem, hd⟩ := List.any_eq_true.mp hlifetime
      exact .inr ⟨id, d, ExtTreeMap.mem_toList_iff_getElem?_eq_some.mp hmem,
        of_decide_eq_true hd⟩

end Rules

/-! ### A convoy's own rows -/

abbrev ConvoyResource := Resource ConvoySpec ConvoyState

theorem exists_numberedBy (spec : ConvoySpec) (e : ConvoyEdge) :
    ∃ number, NumberedBy number spec e := by
  cases e with
  | keep e =>
    cases e with
    | verdict id by_ authority reason => exact ⟨Fin.val, trivial⟩
    | observed id submission =>
      cases hrow : spec.promise id with
      | none => exact ⟨Fin.val, fun i p hp => nomatch hrow.symm.trans hp⟩
      | some row =>
        obtain ⟨i, p⟩ := row
        refine ⟨fun s => if s.val = currentSubmission p then p.submissions.records.length
          else p.submissions.records.length + 1, ?_⟩
        intro i' p' hp'
        cases hrow.symm.trans hp'
        by_cases hcurrent : submission.val = currentSubmission p
        · simp [hcurrent]
        · simp [hcurrent]
  | _ => exact ⟨Fin.val, trivial⟩

variable {allowed : ConvoyResource → ConvoyEdge → Prop} {e : ConvoyEdge} {edges : List ConvoyEdge}
  {quota : Quota} {r r' : ConvoyResource} {request : ConvoyRequest} {retired : BTreeSet DutyId}
  {spec : ConvoySpec}

/-- **Every accepted edge is an event of the specification**, up to the number that evidence is
given. -/
theorem step_of_applied (hk : Keyed r.spec) (h : Applied convoy r e r') :
    ∃ quota retired number world, r.state = .opened quota retired ∧
      Rules.openStep world.limitsRead (absWork r.spec quota retired) (absEdge number world e) =
        .ok (absState r'.spec r'.state) := by
  obtain ⟨world, now, version, moved, spec, hv, hwrites, rfl⟩ := h.verdict convoy_sound
  obtain ⟨quota, retired, hstate⟩ := opened_of_verdict hv
  have hopened : r.state = .opened quota retired := hstate
  obtain ⟨number, hnumber⟩ := exists_numberedBy r.spec e
  obtain ⟨s, hs, hreaches⟩ := (sim_verdict hk hnumber).ok_left hv
  refine ⟨quota, retired, number, world, hopened, ?_⟩
  have hnext : absState (r.commit moved version now).spec moved.1 = s :=
    hreaches spec hwrites version
  show _ = Except.ok (absState (r.commit moved version now).spec moved.1)
  rw [hnext]
  rw [hstate] at hs
  exact hs

theorem moves_of_applied (hk : Keyed r.spec) (h : Applied convoy r e r') :
    ∃ quota retired number world, r.state = .opened quota retired ∧
      Rules.Moves (absWork r.spec quota retired) (absEdge number world e)
        (absState r'.spec r'.state) := by
  obtain ⟨quota, retired, number, world, hstate, hstep⟩ := step_of_applied hk h
  exact ⟨quota, retired, number, world, hstate, Rules.moves_of_openStep hstep⟩

/-- The abstract work of a convoy. -/
def workOf (r : ConvoyResource) : Rules.Work := absWork r.spec r.state.quota r.state.retired

theorem work_absState (spec : ConvoySpec) (state : ConvoyState) :
    (absState spec state).work = absWork spec state.quota state.retired := by
  cases state <;> rfl

/-- What the rules say of a convoy in every state that it reaches. -/
structure Ruled (r : ConvoyResource) : Prop where
  keyed : Keyed r.spec
  good : Rules.Good (workOf r)
  settled : Rules.Settled (absState r.spec r.state)

theorem ruled_admitted (h : Admitted convoy request r) : Ruled r := by
  have hk := keyed_admitted h
  obtain ⟨name, world, now, version, spec, state, hadmits, -⟩ := h
  obtain ⟨s, hs, rfl⟩ := (lockstep_admits _ (named_of_admits hadmits).1 now).ok_left hadmits
  obtain ⟨hgood, hsettled⟩ := Rules.Good.admits hs
  rw [work_absState] at hgood
  exact ⟨hk, hgood, hsettled⟩

theorem ruled_applied (hr : Ruled r) (h : Applied convoy r e r') : Ruled r' := by
  obtain ⟨quota, retired, number, world, hstate, hmoves⟩ := moves_of_applied hr.keyed h
  have hgood := hr.good
  rw [workOf, hstate] at hgood
  have hgood' := hgood.moves hmoves
  rw [work_absState] at hgood'
  exact ⟨keyed_applied hr.keyed h, hgood', Rules.Settled.moves hmoves⟩

theorem ruled_run {start r : ConvoyResource} (hstart : Admitted convoy request start)
    (run : Run convoy allowed start edges r) : Ruled r :=
  run.invariant (ruled_admitted hstart) fun _ _ _ hr _ happlied => ruled_applied hr happlied

theorem quotaKept_run (hr : Ruled r) (run : Run convoy allowed r edges r') :
    Rules.QuotaKept r.state.quota r'.state.quota := by
  have hboth : Ruled r' ∧ Rules.QuotaKept r.state.quota r'.state.quota :=
    run.invariant (P := fun r' => Ruled r' ∧ Rules.QuotaKept r.state.quota r'.state.quota)
      ⟨hr, .refl _⟩ fun r₁ e r₂ h₁ _ happlied => by
        obtain ⟨quota, retired, number, world, hstate, hmoves⟩ :=
          moves_of_applied h₁.1.keyed happlied
        have hkept := Rules.QuotaKept.moves hmoves
        rw [work_absState] at hkept
        have hquota : r₁.state.quota = quota := by rw [hstate]; rfl
        exact ⟨ruled_applied h₁.1 happlied, h₁.2.trans (by rw [hquota]; exact hkept)⟩
  exact hboth.2

/-- **What a convoy's rows satisfy.** -/
structure WellFormed (r : ConvoyResource) : Prop where
  ids : (r.spec.promises.records.map Promise.id).Nodup
  floor : ∀ p ∈ r.spec.promises.records, r.spec.promiseFloor ≤ p.id.val
  names : (r.spec.seats.records.map Seat.name).Nodup
  owners : ∀ p ∈ r.spec.promises.records, p.owner ∈ r.spec.seats.records.map Seat.name
  dutyOwners : ∀ (id : DutyId) (d : Duty), r.spec.duties[id]? = some d →
    d.owner ∈ r.spec.seats.records.map Seat.name
  parents : ParentsKnown r.spec.seats.records
  acyclic : Acyclic (parentOf r.spec.seats.records)
  submitted : ∀ p ∈ r.spec.promises.records, p.progress.value = .submitted →
    p.submissions.records ≠ []
  obliged : r.spec.promises.records ≠ [] ∨
    ∃ (id : DutyId) (d : Duty), r.spec.duties[id]? = some d ∧ d.scope = .lifetime
  settled : StateValue.label r.state = .delivered →
    (∀ p ∈ r.spec.promises.records, p.isOpen = false) ∧
      ∀ (id : DutyId) (d : Duty), r.spec.duties[id]? = some d → d.scope = .lifetime →
        id ∈ r.state.retired

theorem mem_seats_absWork (hk : Keyed spec) {name : SeatName} :
    name ∈ (absWork spec quota retired).seats ↔ name ∈ spec.seats.records.map Seat.name := by
  rw [ExtTreeMap.mem_iff_isSome_getElem?, absWork, Table.lookup_view hk.names,
    Option.isSome_map, List.find?_isSome, List.mem_map]
  simp

theorem parentAt_absWork (hk : Keyed spec) (quota : Quota) (retired : BTreeSet DutyId) :
    Rules.parentAt (absWork spec quota retired).seats = parentOf spec.seats.records := by
  funext name
  rw [Rules.parentAt, absWork, Table.lookup_view hk.names, parentOf_eq hk.names]
  cases spec.seats.records.find? fun s => s.name = name <;> rfl

theorem lookup_of_mem (hk : Keyed spec) {p : Promise} (hp : p ∈ spec.promises.records) :
    (absWork spec quota retired).promises[p.id]? = some (absPromise p) := by
  obtain ⟨i, hrow⟩ := promise_of_mem hk hp
  rw [lookup_promises hk, hrow]
  rfl

/-- The rules' invariant, read off a convoy's rows. -/
theorem Ruled.wellFormed (hr : Ruled r) : WellFormed r := by
  obtain ⟨hk, hgood, hsettled⟩ := hr
  have hparent := parentAt_absWork hk r.state.quota r.state.retired
  refine ⟨hk.ids, ?_, hk.names, ?_, ?_, ?_, ?_, ?_, ?_, ?_⟩
  · intro p hp
    exact hgood.floor p.id (BTreeMap.mem_of_lookup (lookup_of_mem hk hp))
  · intro p hp
    exact (mem_seats_absWork hk).mp (hgood.owners p.id _ (lookup_of_mem hk hp))
  · intro id d hd
    exact (mem_seats_absWork hk).mp (hgood.dutyOwners id d hd)
  · intro s hs parent hs'
    refine (mem_seats_absWork hk).mp (hgood.closed s.name parent ?_)
    rw [workOf, hparent, parentOf_mem hk.names hs]
    exact hs'
  · rw [← hparent]
    exact hgood.acyclic
  · intro p hp hsub hnil
    refine hgood.submitted p.id _ (lookup_of_mem hk hp) hsub ?_
    rw [absPromise, hnil]
    rfl
  · rcases hgood.obliged with ⟨id, hid⟩ | hlifetime
    · left
      rw [workOf, mem_promises_iff hk] at hid
      obtain ⟨⟨i, p⟩, hrow⟩ := Option.isSome_iff_exists.mp hid
      exact List.ne_nil_of_mem (List.mem_of_getElem? (promise_eq_some hrow).1)
    · exact .inr hlifetime
  · intro hlabel
    cases hstate : r.state with
    | opened quota retired => rw [hstate] at hlabel; cases hlabel
    | abandoned quota retired reason => rw [hstate] at hlabel; cases hlabel
    | delivered quota retired =>
      rw [hstate] at hsettled
      obtain ⟨hopen, hholding⟩ := hsettled
      constructor
      · intro p hp
        by_contra hisOpen
        refine ExtTreeSet.eq_empty_iff_forall_not_mem.mp hopen p.id
          (Rules.mem_openPromises.mpr ⟨_, lookup_of_mem hk hp, ?_⟩)
        simpa using hisOpen
      · intro id d hd hscope
        by_contra hunretired
        exact ExtTreeSet.eq_empty_iff_forall_not_mem.mp hholding id
          (Rules.mem_holdingDuties.mpr ⟨d, hd, hscope, hunretired⟩)

/-- **In every state that a run of edges reaches from an admitted convoy, its rows are well formed,
and whatever run follows keeps its quota's classes and lowers none of them.** -/
theorem run_wellFormed {request : ConvoyRequest} {start r : ConvoyResource}
    {edges : List ConvoyEdge} (hstart : Admitted convoy request start)
    (run : Run convoy anywhere start edges r) :
    WellFormed r ∧ ∀ edges' r', Run convoy anywhere r edges' r' →
      Rules.QuotaKept r.state.quota r'.state.quota :=
  ⟨(ruled_run hstart run).wellFormed, fun _ _ run' => quotaKept_run (ruled_run hstart run) run'⟩

theorem admitted_lead : Admitted convoy leadRequest leadConvoy :=
  ⟨"convoy", openWorld, 0, 1, _, _, rfl, rfl⟩

/-- The admitted convoy with one submission. -/
theorem run_wellFormed_submitted :
    ∃ r, Run convoy anywhere leadConvoy [submitAgain] r ∧ WellFormed r ∧
      ∀ edges' r', Run convoy anywhere r edges' r' →
        Rules.QuotaKept r.state.quota r'.state.quota := by
  have hdecide : convoy.decide leadConvoy submitAgain openWorld 1 =
      .ok ((convoyEdge submitAgain).effect (leadConvoy.handle openWorld 1)) := by
    rfl
  have run : Run convoy anywhere leadConvoy ([] ++ [submitAgain]) _ :=
    Run.nil.snoc trivial (Applied.intro openWorld 1 2 _ hdecide)
  exact ⟨_, run, run_wellFormed admitted_lead run⟩

end Flotilla.Convoy
