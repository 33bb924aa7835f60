import Flotilla.Convoy.Rules
import Flotilla.Lib.Lockstep

/-!
# Convoys as their specification sees them

`absWork` reads a convoy's tables as maps and its retired flags as a set.  What the
gates look up or collect is then what the rules look up or collect, and a write to
a row is a write to the map.
-/

namespace Flotilla.Convoy

open Lib
open Std (ExtTreeMap ExtTreeSet)
open Engine

/-! ### Abstraction -/

def absSubmission (s : Submission) : Rules.Reference := (s.address, s.revision)

def absPromise (p : Promise) : Rules.PromiseRecord where
  promise := { kind := p.kind, target := p.target }
  source := p.source
  owner := p.owner
  state := p.progress.value
  submissions := p.submissions.records.map absSubmission

def absSeat (s : Seat) : Rules.SeatRecord where
  parent := s.parent
  supervisedBy := s.supervisedBy
  replacements := s.replacements

def retiredNames (seats : List Seat) : BTreeSet SeatName :=
  seatNames (seats.filter Seat.retired)

/-- Records as maps, and retired flags as a set of seats. -/
def absWork (spec : ConvoySpec) (quota : Quota) (retired : BTreeSet DutyId) : Rules.Work where
  spec := { project := spec.project, duties := spec.duties, priority := spec.priority }
  promises := Table.view Promise.id absPromise spec.promises.records
  seats := Table.view Seat.name absSeat spec.seats.records
  retired := retired
  quota := quota
  retiredSeats := retiredNames spec.seats.records
  promiseFloor := spec.promiseFloor

def absState (spec : ConvoySpec) : ConvoyState → Rules.State
  | .opened quota retired => .opened (absWork spec quota retired)
  | .delivered quota retired => .delivered (absWork spec quota retired)
  | .abandoned quota retired reason => .abandoned (absWork spec quota retired) reason

/-- The event of an edge in a world, evidence being numbered by `number`. -/
def absEdge (number : U32 → Nat) (world : ConvoyWorld) : ConvoyEdge → Rules.Event
  | .declare e => .declare e.promise { kind := e.kind, target := e.target } e.owner
  | .submit e =>
    .submit e.promise e.by_ (e.address, e.revision) ((world.durable e.durable).getD false)
  | .reject e => .reject e.promise
  | .keep (.observed promise submission) => .keep (.observed promise (number submission))
  | .keep (.verdict promise _ authority reason) => .keep (.verdict promise authority reason)
  | .retract e => .retract e.promise e.by_ e.authority e.reason
  | .reassign e => .reassign e.promise e.to_ e.by_ e.authority
  | .retireDuty e => .retireDuty e.duty ((world.authority e.authority).getD false)
  | .addSeat e => .addSeat e.seat e.parent e.supervisedBy ((world.authority e.authority).getD false)
  | .resupervise e => .resupervise e.seat e.supervisedBy ((world.authority e.authority).getD false)
  | .retireSeat e => .retireSeat e.seat ((world.authority e.authority).getD false)
  | .rollover e => .rollover ((world.authority e.authority).getD false)
  | .replaceSeat seat => .replaceSeat seat
  | .deliver => .deliver
  | .abandon e => .abandon ((world.authority e.authority).getD false) e.reason
  | .readmission e => .readmission e.quota ((world.authority e.authority).getD false)

/-! ### Rows and maps -/

/-- No two promises share an id, and no two seats a name. -/
structure Keyed (spec : ConvoySpec) : Prop where
  ids : (spec.promises.records.map Promise.id).Nodup
  names : (spec.seats.records.map Seat.name).Nodup

section Lookup

variable {spec : ConvoySpec} {quota : Quota} {retired : BTreeSet DutyId} {id : PromiseId}
  {name : SeatName} {p : Promise}

theorem mem_seatNames {seats : List Seat} :
    name ∈ seatNames seats ↔ ∃ seat ∈ seats, seat.name = name := by
  rw [seatNames, ExtTreeSet.mem_ofList, List.contains_iff_mem, List.mem_map]

theorem promise_eq_some {i : Nat} (h : spec.promise id = some (i, p)) :
    spec.promises.records[i]? = some p ∧ p.id = id := by
  obtain ⟨hi, hp⟩ := Records.getElem?_of_find h
  exact ⟨hi, of_decide_eq_true hp⟩

theorem seat_eq_some {i : Nat} {s : Seat} (h : spec.seat name = some (i, s)) :
    spec.seats.records[i]? = some s ∧ s.name = name := by
  obtain ⟨hi, hs⟩ := Records.getElem?_of_find h
  exact ⟨hi, of_decide_eq_true hs⟩

theorem snd_promise :
    (spec.promise id).map Prod.snd = spec.promises.records.find? fun p => p.id = id :=
  Records.snd_find _ _

theorem snd_seat (name : SeatName) :
    (spec.seat name).map Prod.snd = spec.seats.records.find? fun s => s.name = name :=
  Records.snd_find _ _

theorem lookup_promises (hk : Keyed spec) (id : PromiseId) :
    (absWork spec quota retired).promises[id]? =
      (spec.promise id).map fun row => absPromise row.2 := by
  rw [absWork, Table.lookup_view hk.ids, ← snd_promise, Option.map_map]
  rfl

theorem lookup_seats (hk : Keyed spec) (name : SeatName) :
    (absWork spec quota retired).seats[name]? =
      (spec.seat name).map fun row => absSeat row.2 := by
  rw [absWork, Table.lookup_view hk.names, ← snd_seat, Option.map_map]
  rfl

theorem mem_promises_iff (hk : Keyed spec) :
    id ∈ (absWork spec quota retired).promises ↔ (spec.promise id).isSome := by
  rw [ExtTreeMap.mem_iff_isSome_getElem?, lookup_promises hk, Option.isSome_map]

theorem seat_eq_none_iff (hk : Keyed spec) :
    spec.seat name = none ↔ name ∉ (absWork spec quota retired).seats := by
  rw [ExtTreeMap.mem_iff_isSome_getElem?, lookup_seats hk, Option.isSome_map,
    Bool.not_eq_true, Option.isSome_eq_false_iff, Option.isNone_iff_eq_none]

theorem retired_iff (hk : Keyed spec) {row : Nat × Seat} (hrow : spec.seat name = some row) :
    row.2.retired = true ↔ name ∈ (absWork spec quota retired).retiredSeats := by
  obtain ⟨i, s⟩ := row
  obtain ⟨hi, rfl⟩ := seat_eq_some hrow
  show s.retired = true ↔ s.name ∈ retiredNames spec.seats.records
  rw [retiredNames, mem_seatNames]
  constructor
  · intro hs
    exact ⟨s, List.mem_filter.mpr ⟨List.mem_of_getElem? hi, hs⟩, rfl⟩
  · rintro ⟨s', hs', hname⟩
    obtain ⟨hmem, hret⟩ := List.mem_filter.mp hs'
    rwa [List.inj_on_of_nodup_map hk.names (List.mem_of_getElem? hi) hmem hname.symm]

theorem promise_of_mem (hk : Keyed spec) (hp : p ∈ spec.promises.records) :
    ∃ i, spec.promise p.id = some (i, p) := by
  have hfind := (Table.find?_eq_some_iff hk.ids).mpr ⟨hp, rfl⟩
  rw [← snd_promise] at hfind
  obtain ⟨⟨i, p'⟩, hrow, heq⟩ := Option.map_eq_some_iff.mp hfind
  cases heq
  exact ⟨i, hrow⟩

theorem seat_of_mem (hk : Keyed spec) {s : Seat} (hs : s ∈ spec.seats.records) :
    ∃ i, spec.seat s.name = some (i, s) := by
  have hfind := (Table.find?_eq_some_iff hk.names).mpr ⟨hs, rfl⟩
  rw [← snd_seat] at hfind
  obtain ⟨⟨i, s'⟩, hrow, heq⟩ := Option.map_eq_some_iff.mp hfind
  cases heq
  exact ⟨i, hrow⟩

@[simp] theorem isOpen_absPromise (p : Promise) : (absPromise p).isOpen = p.isOpen := by
  cases hp : p.progress.value <;> simp [Rules.PromiseRecord.isOpen, Promise.isOpen, absPromise, hp]

/-- The keys of the promises that satisfy a condition on their records. -/
theorem ofList_filter_promises (hk : Keyed spec) {f : Promise → Bool}
    {g : PromiseId → Rules.PromiseRecord → Bool} (hfg : ∀ p, g p.id (absPromise p) = f p) :
    ExtTreeSet.ofList ((spec.promises.records.filter f).map Promise.id) compare =
      Table.keysWhere (absWork spec quota retired).promises g := by
  apply ExtTreeSet.ext_mem
  intro id
  rw [Table.mem_keysWhere, ExtTreeSet.mem_ofList, List.contains_iff_mem, List.mem_map]
  constructor
  · rintro ⟨p, hp, rfl⟩
    obtain ⟨hp, hf⟩ := List.mem_filter.mp hp
    obtain ⟨i, hrow⟩ := promise_of_mem hk hp
    exact ⟨absPromise p, by rw [lookup_promises hk, hrow]; rfl, (hfg p).trans hf⟩
  · rintro ⟨p', hp', hg⟩
    rw [lookup_promises hk] at hp'
    obtain ⟨⟨i, p⟩, hrow, rfl⟩ := Option.map_eq_some_iff.mp hp'
    obtain ⟨hi, rfl⟩ := promise_eq_some hrow
    exact ⟨p, List.mem_filter.mpr ⟨List.mem_of_getElem? hi, (hfg p).symm.trans hg⟩, rfl⟩

/-- The keys of a map's entries that satisfy a condition, listed or selected. -/
theorem ofList_filter_toList {V : Type} (m : BTreeMap DutyId V) (f : DutyId × V → Bool) :
    ExtTreeSet.ofList ((m.toList.filter f).map Prod.fst) compare =
      Table.keysWhere m fun k v => f (k, v) := by
  apply ExtTreeSet.ext_mem
  intro k
  rw [Table.mem_keysWhere, ExtTreeSet.mem_ofList, List.contains_iff_mem, List.mem_map]
  constructor
  · rintro ⟨⟨k', v⟩, hmem, rfl⟩
    obtain ⟨hmem, hf⟩ := List.mem_filter.mp hmem
    exact ⟨v, ExtTreeMap.mem_toList_iff_getElem?_eq_some.mp hmem, hf⟩
  · rintro ⟨v, hv, hf⟩
    exact ⟨(k, v), List.mem_filter.mpr
      ⟨ExtTreeMap.mem_toList_iff_getElem?_eq_some.mpr hv, hf⟩, rfl⟩

theorem outstanding_eq (hk : Keyed spec) (quota : Quota) (retired : BTreeSet DutyId) :
    spec.outstanding = Rules.openPromises (absWork spec quota retired) :=
  ofList_filter_promises hk fun p => isOpen_absPromise p

theorem seatOutstanding_eq (hk : Keyed spec) (seat : SeatName) :
    seatOutstanding spec seat = Rules.seatPromises (absWork spec quota retired) seat :=
  ofList_filter_promises hk fun p => by
    rw [isOpen_absPromise]
    exact decide_eq_decide.mpr and_comm

theorem holding_eq (quota : Quota) :
    spec.holding retired = Rules.holdingDuties (absWork spec quota retired) :=
  (ofList_filter_toList _ _).trans (congrArg _ (by
    funext id d
    simp [Rules.lifetime, absWork]))

theorem liveDuty_eq (hk : Keyed spec) (quota : Quota) (id : DutyId) (d : Duty) :
    liveDuty spec retired id d = Rules.liveDuty (absWork spec quota retired) id d := by
  cases hscope : d.scope with
  | lifetime => simp [liveDuty, Rules.liveDuty, hscope, absWork]
  | whileOpen promises =>
    simp only [liveDuty, Rules.liveDuty, hscope]
    refine congrArg promises.toList.any (funext fun p => ?_)
    rw [Bool.eq_iff_iff, ExtTreeSet.contains_iff_mem, Rules.openPromises,
      Table.mem_keysWhere, lookup_promises hk]
    cases spec.promise p <;> simp

theorem seatDuties_eq (hk : Keyed spec) (seat : SeatName) :
    seatDuties spec retired seat = Rules.seatDuties (absWork spec quota retired) seat :=
  (ofList_filter_toList _ _).trans (congrArg _ (by
    funext id d
    rw [liveDuty_eq hk quota]))

end Lookup

/-! ### Writes -/

section Writes

variable {spec : ConvoySpec} {quota : Quota} {retired : BTreeSet DutyId} {f : Seat → Seat} {i : Nat}
  {name : SeatName} {p : Promise} {promises : Records Promise} {s : Seat} {seats : Records Seat}

theorem absWork_modify_promise (hk : Keyed spec) {id : PromiseId}
    (hrow : spec.promise id = some (i, p)) {f : Promise → Promise} (hf : ∀ p, (f p).id = p.id)
    (hmod : promises.records = spec.promises.records.modify i f) :
    absWork { spec with promises } quota retired =
      Rules.withPromise (absWork spec quota retired) id (absPromise (f p)) := by
  obtain ⟨hi, rfl⟩ := promise_eq_some hrow
  simp only [absWork, Rules.withPromise, hmod, Table.view_modify hf hi hk.ids]

theorem absWork_append_promise (hk : Keyed spec)
    (happ : promises.records = spec.promises.records ++ [p]) (hnew : spec.promise p.id = none) :
    absWork { spec with promises } quota retired =
      Rules.withPromise (absWork spec quota retired) p.id (absPromise p) := by
  have hfresh : ∀ p' ∈ spec.promises.records, p'.id ≠ p.id := by
    intro p' hp' heq
    obtain ⟨i, hrow⟩ := promise_of_mem hk hp'
    rw [heq, hnew] at hrow
    cases hrow
  simp only [absWork, Rules.withPromise, happ, Table.view_append hk.ids hfresh]

/-- The names of the retired seats stay when a row is changed in place and keeps its flag. -/
theorem retiredNames_modify (hname : ∀ s, (f s).name = s.name)
    (hretired : ∀ s, (f s).retired = s.retired) (seats : List Seat) :
    retiredNames (seats.modify i f) = retiredNames seats := by
  have hpairs : ∀ l : List Seat, (l.filter Seat.retired).map Seat.name =
      ((l.map fun s => (s.name, s.retired)).filter Prod.snd).map Prod.fst := by
    intro l
    rw [List.filter_map, List.map_map]
    rfl
  have hkeep : ∀ s, ((f s).name, (f s).retired) = (s.name, s.retired) := by
    intro s
    rw [hname, hretired]
  rw [retiredNames, retiredNames, seatNames, seatNames, hpairs, hpairs,
    Table.map_key_modify (fun s : Seat => (s.name, s.retired)) hkeep]

theorem absWork_modify_seat (hk : Keyed spec) (hrow : spec.seat name = some (i, s))
    (hf : ∀ s, (f s).name = s.name) (hretired : ∀ s, (f s).retired = s.retired)
    (hmod : seats.records = spec.seats.records.modify i f) :
    absWork { spec with seats } quota retired =
      Rules.withSeat (absWork spec quota retired) name (absSeat (f s)) := by
  obtain ⟨hi, rfl⟩ := seat_eq_some hrow
  simp only [absWork, Rules.withSeat, hmod, Table.view_modify hf hi hk.names,
    retiredNames_modify hf hretired]

/-- Retiring a seat changes the set of retired seats alone. -/
theorem absWork_retire_seat (hk : Keyed spec) (hrow : spec.seat name = some (i, s)) :
    absWork { spec with seats := spec.seats.modify i fun row => { row with retired := true } }
        quota retired =
      { absWork spec quota retired with
        retiredSeats := (absWork spec quota retired).retiredSeats.insert name } := by
  have hlookup : (absWork spec quota retired).seats[name]? = some (absSeat s) := by
    rw [lookup_seats hk, hrow]
    rfl
  obtain ⟨hi, rfl⟩ := seat_eq_some hrow
  have hseats : Table.view Seat.name absSeat
      (spec.seats.records.modify i fun row => { row with retired := true }) =
      Table.view Seat.name absSeat spec.seats.records := by
    refine (Table.view_modify ?_ hi hk.names).trans (BTreeMap.insert_eq_self hlookup)
    exact fun _ => rfl
  have hretired : retiredNames
      (spec.seats.records.modify i fun row => { row with retired := true }) =
      (retiredNames spec.seats.records).insert s.name := by
    apply ExtTreeSet.ext_mem
    intro name
    simp only [retiredNames, mem_seatNames, List.mem_filter, ExtTreeSet.mem_insert,
      Std.compare_eq_iff_eq, Table.mem_modify_iff hi hk.names]
    constructor
    · rintro ⟨s', ⟨rfl | ⟨hs', -⟩, hret⟩, rfl⟩
      · exact .inl rfl
      · exact .inr ⟨s', ⟨hs', hret⟩, rfl⟩
    · rintro (rfl | ⟨s', ⟨hs', hret⟩, rfl⟩)
      · exact ⟨_, ⟨.inl rfl, rfl⟩, rfl⟩
      · by_cases hname : s'.name = s.name
        · exact ⟨_, ⟨.inl rfl, rfl⟩, hname.symm⟩
        · exact ⟨s', ⟨.inr ⟨hs', hname⟩, hret⟩, rfl⟩
  simp only [absWork, Records.records_modify, hseats, hretired]

theorem absWork_append_seat (hk : Keyed spec) (happ : seats.records = spec.seats.records ++ [s])
    (hnew : spec.seat s.name = none) (hlive : s.retired = false) :
    absWork { spec with seats } quota retired =
      Rules.withSeat (absWork spec quota retired) s.name (absSeat s) := by
  have hfresh : ∀ s' ∈ spec.seats.records, s'.name ≠ s.name := by
    intro s' hs' heq
    have hfind := List.find?_eq_none.mp (Option.map_eq_none_iff.mpr hnew ▸ snd_seat s.name).symm
    exact hfind s' hs' (decide_eq_true heq)
  simp only [absWork, Rules.withSeat, happ, Table.view_append hk.names hfresh, retiredNames,
    List.filter_append, List.filter_cons, hlive, List.filter_nil, List.append_nil,
    Bool.false_eq_true, if_false]

end Writes

/-! ### The next generation -/

section Generation

variable {spec : ConvoySpec} {quota : Quota} {retired : BTreeSet DutyId}

/-- The seats that a rollover keeps. -/
def keptSeats (seats : List Seat) : List Seat := seats.filter fun seat => ¬ seat.retired

/-- A kept seat, at the root if its parent is not kept. -/
def carry (kept : List Seat) (seat : Seat) : Seat :=
  if seat.parent.any fun parent => ¬ (seatNames kept).contains parent then
    { seat with parent := none }
  else seat

variable (kept seats : List Seat) (seat : Seat)

theorem carriedSeats_eq :
    carriedSeats seats = (keptSeats seats).map (carry (keptSeats seats)) := rfl

theorem name_carry : (carry kept seat).name = seat.name := by
  rw [carry]
  split_ifs <;> rfl

theorem retired_carry : (carry kept seat).retired = seat.retired := by
  rw [carry]
  split_ifs <;> rfl

theorem absSeat_carry :
    absSeat (carry kept seat) =
      { absSeat seat with parent := (absSeat seat).parent.filter (seatNames kept).contains } := by
  cases hparent : seat.parent with
  | none => simp [carry, absSeat, hparent]
  | some parent =>
    by_cases hkept : parent ∈ seatNames kept
    · simp [carry, absSeat, hparent, hkept, Option.filter]
    · simp [carry, absSeat, hparent, hkept, Option.filter]

theorem names_carriedSeats :
    (carriedSeats seats).map Seat.name = (keptSeats seats).map Seat.name := by
  rw [carriedSeats_eq, List.map_map]
  exact List.map_congr_left fun seat _ => name_carry _ seat

theorem nodup_keptSeats (hk : Keyed spec) : ((keptSeats spec.seats.records).map Seat.name).Nodup :=
  hk.names.sublist ((List.filter_sublist).map _)

theorem find?_keptSeats (hk : Keyed spec) (name : SeatName) :
    (keptSeats spec.seats.records).find? (fun s => s.name = name) =
      (spec.seats.records.find? fun s => s.name = name).filter fun s => ¬ s.retired := by
  apply Option.ext
  intro s
  rw [Table.find?_eq_some_iff (nodup_keptSeats hk), Option.filter_eq_some_iff,
    Table.find?_eq_some_iff hk.names, keptSeats, List.mem_filter]
  tauto

theorem liveSeats_eq (hk : Keyed spec) :
    Rules.liveSeats (absWork spec quota retired) = seatNames (keptSeats spec.seats.records) := by
  apply ExtTreeSet.ext_mem
  intro name
  rw [Rules.liveSeats, Table.mem_keysWhere, mem_seatNames, lookup_seats hk]
  constructor
  · rintro ⟨r, hr, hlive⟩
    obtain ⟨⟨i, s⟩, hrow, rfl⟩ := Option.map_eq_some_iff.mp hr
    obtain ⟨hi, hname⟩ := seat_eq_some hrow
    refine ⟨s, List.mem_filter.mpr ⟨List.mem_of_getElem? hi, ?_⟩, hname⟩
    simp only [decide_eq_true_eq, ExtTreeSet.contains_iff_mem] at hlive ⊢
    exact fun hret => hlive ((retired_iff hk hrow).mp hret)
  · rintro ⟨s, hs, rfl⟩
    obtain ⟨hmem, hlive⟩ := List.mem_filter.mp hs
    obtain ⟨i, hrow⟩ := seat_of_mem hk hmem
    refine ⟨absSeat s, by rw [hrow]; rfl, ?_⟩
    simp only [decide_eq_true_eq, ExtTreeSet.contains_iff_mem] at hlive ⊢
    exact fun hret => hlive ((retired_iff hk hrow).mpr hret)

theorem mem_keptSeats_iff (hk : Keyed spec) {i : Nat} {s : Seat} {name : SeatName}
    (hrow : spec.seat name = some (i, s)) :
    name ∈ seatNames (keptSeats spec.seats.records) ↔ s.retired = false := by
  obtain ⟨hi, rfl⟩ := seat_eq_some hrow
  rw [mem_seatNames]
  constructor
  · rintro ⟨s', hs', hname⟩
    obtain ⟨hmem, hlive⟩ := List.mem_filter.mp hs'
    rw [← List.inj_on_of_nodup_map hk.names hmem (List.mem_of_getElem? hi) hname]
    simpa using hlive
  · intro hlive
    exact ⟨s, List.mem_filter.mpr ⟨List.mem_of_getElem? hi, by simp [hlive]⟩, rfl⟩

theorem view_carriedSeats (hk : Keyed spec) :
    Table.view Seat.name absSeat (carriedSeats spec.seats.records) =
      (Rules.nextGeneration (absWork spec quota retired)).seats := by
  have hnodup : ((carriedSeats spec.seats.records).map Seat.name).Nodup := by
    rw [names_carriedSeats]
    exact nodup_keptSeats hk
  apply ExtTreeMap.ext_getElem?
  intro name
  rw [Table.lookup_view hnodup, Rules.nextGeneration, ExtTreeMap.getElem?_map,
    ExtTreeMap.getElem?_filter', liveSeats_eq hk, lookup_seats hk, carriedSeats_eq,
    List.find?_map]
  have hpred : (fun s => decide (s.name = name)) ∘ carry (keptSeats spec.seats.records) =
      fun s => decide (s.name = name) := by
    funext s
    simp [name_carry]
  rw [hpred, find?_keptSeats hk, ← snd_seat]
  cases hrow : spec.seat name with
  | none => rfl
  | some row =>
    obtain ⟨i, s⟩ := row
    have hkept := mem_keptSeats_iff hk hrow
    cases hret : s.retired with
    | true =>
      have hnot : name ∉ seatNames (keptSeats spec.seats.records) := by simp [hkept, hret]
      simp [Option.filter, hret, hnot]
    | false =>
      have hmem : name ∈ seatNames (keptSeats spec.seats.records) := hkept.mpr hret
      simp [Option.filter, hret, hmem, absSeat_carry]

theorem retiredNames_carriedSeats : retiredNames (carriedSeats seats) = ∅ := by
  rw [ExtTreeSet.eq_empty_iff_forall_not_mem]
  intro name
  rw [retiredNames, mem_seatNames, carriedSeats_eq]
  rintro ⟨s, hs, -⟩
  obtain ⟨hs, hret⟩ := List.mem_filter.mp hs
  obtain ⟨s', hs', rfl⟩ := List.mem_map.mp hs
  have hlive := (List.mem_filter.mp hs').2
  rw [retired_carry] at hret
  simp [hret] at hlive

/-- The floor is the least number above every id and at least the old floor. -/
theorem nextFloor_le_iff {n : Nat} :
    nextFloor spec ≤ n ↔
      spec.promiseFloor ≤ n ∧ ∀ p ∈ spec.promises.records, p.id.val + 1 ≤ n := by
  rw [nextFloor, max_le_iff, and_comm, and_congr_right_iff]
  intro hfloor
  cases hmax : (spec.promises.records.map fun p => p.id.val + 1).max? with
  | none =>
    have hnil : spec.promises.records = [] := by simpa using hmax
    simp [hnil, hfloor]
  | some m =>
    rw [Option.getD_some, List.max?_le_iff hmax]
    simp

theorem foldl_floor_le_iff (ids : List PromiseId) (floor n : Nat) :
    ids.foldl (fun m p => if p.val + 1 > m then p.val + 1 else m) floor ≤ n ↔
      floor ≤ n ∧ ∀ id ∈ ids, id.val + 1 ≤ n := by
  induction ids generalizing floor with
  | nil => simp
  | cons id ids ih =>
    rw [List.foldl_cons, ih, List.forall_mem_cons, ← and_assoc]
    refine and_congr_left' ?_
    split_ifs <;> omega

theorem nextFloor_eq (hk : Keyed spec) (quota : Quota) (retired : BTreeSet DutyId) :
    nextFloor spec = (Rules.nextGeneration (absWork spec quota retired)).promiseFloor := by
  refine eq_of_forall_ge_iff fun n => ?_
  rw [nextFloor_le_iff, Rules.nextGeneration, foldl_floor_le_iff]
  refine and_congr_right fun _ => ?_
  constructor
  · intro h id hid
    rw [ExtTreeMap.mem_keys, mem_promises_iff hk] at hid
    obtain ⟨⟨i, p⟩, hrow⟩ := Option.isSome_iff_exists.mp hid
    obtain ⟨hi, rfl⟩ := promise_eq_some hrow
    exact h p (List.mem_of_getElem? hi)
  · intro h p hp
    refine h p.id ?_
    obtain ⟨i, hrow⟩ := promise_of_mem hk hp
    rw [ExtTreeMap.mem_keys, mem_promises_iff hk, hrow]
    rfl

variable (spec) in
/-- What the four writes of a rollover leave. -/
theorem commit_generation (after : Records Seat) (duties : BTreeMap DutyId Duty) (floor : Nat)
    (version : Nat) :
    ∃ seats : Records Seat, seats.records = after.records ∧
      commitWrites ([.generationSeats spec.seats after, .generationPromises spec.promises,
        .generationDuties spec.duties duties, .promiseFloor floor] : List ConvoyWrite)
        spec version =
        { spec with seats, promises := .new, duties, promiseFloor := floor } := by
  have hfold := Records.foldlM_append_eq_ofList version after.length_records_le
  have hseats : (ConvoyWrite.generationSeats spec.seats after).apply spec version =
      .ok { spec with seats := .ofList version after.records after.length_records_le } := by
    rw [ConvoyWrite.apply, hfold]
    rfl
  refine ⟨Records.ofList version after.records after.length_records_le,
    Records.records_ofList _, ?_⟩
  show commitWrites ([.generationPromises spec.promises, .generationDuties spec.duties duties,
    .promiseFloor floor] : List ConvoyWrite) ((Except.toOption
      ((ConvoyWrite.generationSeats spec.seats after).apply spec version)).getD spec) version = _
  rw [hseats]
  rfl

end Generation

end Flotilla.Convoy
