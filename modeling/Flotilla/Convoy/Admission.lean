import Flotilla.Convoy.Refinement
import Flotilla.Lib.Ancestry

/-!
# Admission agrees with the specification

The code walks up from each seat for as many steps as there are seats; the
specification collects the seats above each seat in as many rounds.  Both decide
that the parents of the seats form no cycle (`Lib.Acyclic`).
-/

namespace Flotilla.Convoy

open Lib Std
open Engine

/-! ### Distinct names -/

theorem nodup_of_size_ofList {K : Type} [Ord K] [Std.TransOrd K] [Std.LawfulEqOrd K]
    [DecidableEq K] {l : List K}
    (h : (ExtTreeSet.ofList l compare).size = l.length) : l.Nodup := by
  have hdedup : ExtTreeSet.ofList l compare = ExtTreeSet.ofList l.dedup compare := by
    apply ExtTreeSet.ext_mem
    intro k
    simp [ExtTreeSet.mem_ofList]
  have hdistinct : l.dedup.Pairwise fun a b => ¬ compare a b = .eq :=
    l.nodup_dedup.imp fun hne heq => hne (Std.compare_eq_iff_eq.mp heq)
  rw [hdedup, ExtTreeSet.size_ofList hdistinct] at h
  rw [← (List.dedup_sublist l).eq_of_length h]
  exact l.nodup_dedup

theorem size_ofList_of_nodup {K : Type} [Ord K] [Std.TransOrd K] [Std.LawfulEqOrd K]
    {l : List K} (h : l.Nodup) : (ExtTreeSet.ofList l compare).size = l.length :=
  ExtTreeSet.size_ofList (h.imp fun hne heq => hne (Std.compare_eq_iff_eq.mp heq))

/-! ### The request -/

/-- A request as the specification sees it: admission starts every seat's replacements at zero. -/
def absRequest (world : ConvoyWorld) (request : ConvoyRequest) : Rules.Request where
  project := request.project
  projectKnown := (world.project request.project).isSome
  promises := request.promises.map fun _ p =>
    { promise := { kind := p.kind, target := p.target }, source := p.source, owner := p.owner }
  duties := request.duties
  seats := Table.view Seat.name (fun s => { absSeat s with replacements := 0 }) request.seats
  quota := request.quota
  priority := request.priority

/-- No two seats of the request share a name, as in a map. -/
def ConvoyRequest.Named (request : ConvoyRequest) : Prop := (request.seats.map Seat.name).Nodup

section Seats

variable {seats : List Seat}

theorem parentOf_eq (hnames : (seats.map Seat.name).Nodup) (name : SeatName) :
    parentOf seats name = (seats.find? fun s => s.name = name).bind Seat.parent := by
  have hview := Table.lookup_view (f := Seat.parent) hnames name
  rw [Table.view] at hview
  rw [parentOf, hview]
  cases seats.find? fun s => s.name = name <;> rfl

theorem parentOf_mem (hnames : (seats.map Seat.name).Nodup) {s : Seat} (hs : s ∈ seats) :
    parentOf seats s.name = s.parent := by
  rw [parentOf_eq hnames, (Table.find?_eq_some_iff hnames).mpr ⟨hs, rfl⟩]
  rfl

/-- Every parent is a seat. -/
def ParentsKnown (seats : List Seat) : Prop :=
  ∀ s ∈ seats, ∀ parent, s.parent = some parent → parent ∈ seats.map Seat.name

theorem parentOf_closed (hnames : (seats.map Seat.name).Nodup) (hknown : ParentsKnown seats)
    (a b : SeatName) (h : parentOf seats a = some b) :
    a ∈ seats.map Seat.name ∧ b ∈ seats.map Seat.name := by
  rw [parentOf_eq hnames] at h
  obtain ⟨s, hs, hparent⟩ := Option.bind_eq_some_iff.mp h
  obtain ⟨hmem, hname⟩ := (Table.find?_eq_some_iff hnames).mp hs
  exact ⟨List.mem_map.mpr ⟨s, hmem, hname⟩, hknown s hmem b hparent⟩

theorem endsWithin_iff (n : Nat) (at_ : Option SeatName) :
    endsWithin seats n at_ = true ↔ at_.bind (follow (parentOf seats) n) = none := by
  induction n generalizing at_ with
  | zero => cases at_ <;> simp [endsWithin, follow]
  | succ n ih =>
    cases at_ with
    | none => simp [endsWithin]
    | some name =>
      rw [endsWithin, ih, Option.bind_some, Nat.add_comm n 1, follow_add]
      rfl

theorem acyclic_iff (hnames : (seats.map Seat.name).Nodup) (hknown : ParentsKnown seats) :
    acyclic seats = true ↔ Acyclic (parentOf seats) := by
  rw [acyclic_iff_follow_eq_none (parentOf_closed hnames hknown), acyclic, List.all_eq_true]
  have hwalk : ∀ s ∈ seats, (endsWithin seats seats.length s.parent = true ↔
      follow (parentOf seats) ((seats.map Seat.name).length + 1) s.name = none) := by
    intro s hs
    rw [endsWithin_iff, List.length_map, Nat.add_comm, follow_add, ← parentOf_mem hnames hs]
    rfl
  constructor
  · intro h name hname
    obtain ⟨s, hs, rfl⟩ := List.mem_map.mp hname
    exact (hwalk s hs).mp (h s hs)
  · intro h s hs
    exact (hwalk s hs).mpr (h s.name (List.mem_map.mpr ⟨s, hs, rfl⟩))

end Seats

/-! ### Seats above a seat -/

namespace Rules

/-- The parent that the specification's seats give to a name. -/
def parentAt (seats : BTreeMap SeatName SeatRecord) (name : SeatName) : Option SeatName :=
  seats[name]?.bind SeatRecord.parent

variable {seats : BTreeMap SeatName SeatRecord}

/-- Every parent is a seat. -/
def Closed (seats : BTreeMap SeatName SeatRecord) : Prop :=
  ∀ a b, parentAt seats a = some b → b ∈ seats

theorem Closed.keys (hclosed : Closed seats) (a b : SeatName) (h : parentAt seats a = some b) :
    a ∈ seats.keys ∧ b ∈ seats.keys := by
  obtain ⟨r, hr, -⟩ := Option.bind_eq_some_iff.mp h
  exact ⟨ExtTreeMap.mem_keys.mpr (BTreeMap.mem_of_lookup hr),
    ExtTreeMap.mem_keys.mpr (hclosed a b h)⟩

theorem mem_parents (hclosed : Closed seats) {s : BTreeSet SeatName} {name : SeatName} :
    name ∈ parents seats s ↔ ∃ q ∈ s, parentAt seats q = some name := by
  rw [parents, ExtTreeSet.mem_ofList, List.contains_iff_mem, List.mem_filter,
    List.mem_filterMap]
  simp only [ExtTreeSet.mem_toList, ExtTreeMap.contains_iff_mem]
  constructor
  · rintro ⟨⟨q, hq, hparent⟩, -⟩
    exact ⟨q, hq, hparent⟩
  · rintro ⟨q, hq, hparent⟩
    exact ⟨⟨q, hq, hparent⟩, hclosed q name hparent⟩

/-- After one round and one more for each of `rounds`, the seats at most that far above. -/
theorem mem_foldl_parents (hclosed : Closed seats) (rounds : List SeatName) (seat name : SeatName) :
    name ∈ rounds.foldl (fun found _ => found ∪ parents seats found)
        (parents seats (ExtTreeSet.ofList [seat] compare)) ↔
      ∃ j ≤ rounds.length, follow (parentAt seats) (j + 1) seat = some name := by
  induction rounds using List.reverseRecOn generalizing name with
  | nil =>
    rw [List.foldl_nil, mem_parents hclosed]
    simp [follow]
  | append_singleton rounds last ih =>
    rw [List.foldl_append, List.foldl_cons, List.foldl_nil, ExtTreeSet.mem_union_iff,
      mem_parents hclosed, ih, List.length_append, List.length_singleton]
    constructor
    · rintro (⟨j, hj, hname⟩ | ⟨q, hq, hparent⟩)
      · exact ⟨j, by omega, hname⟩
      · obtain ⟨j, hj, hfollow⟩ := (ih q).mp hq
        refine ⟨j + 1, by omega, ?_⟩
        rw [follow, hfollow]
        exact hparent
    · rintro ⟨j, hj, hname⟩
      by_cases hle : j ≤ rounds.length
      · exact .inl ⟨j, hle, hname⟩
      · obtain rfl : j = rounds.length + 1 := by omega
        obtain ⟨q, hq, hparent⟩ := Option.bind_eq_some_iff.mp hname
        exact .inr ⟨q, (ih q).mpr ⟨rounds.length, le_rfl, hq⟩, hparent⟩

theorem acyclic_iff (hclosed : Closed seats) : acyclic seats = true ↔ Acyclic (parentAt seats) := by
  rw [acyclic, List.all_eq_true, acyclic_iff_follow]
  simp only [decide_eq_true_eq, ExtTreeSet.contains_iff_mem, above,
    mem_foldl_parents hclosed]
  constructor
  · intro h k i hi
    obtain ⟨j, hj, hcycle⟩ := exists_short_cycle hclosed.keys hi
    have hkey : k ∈ seats.keys := by
      cases hk : parentAt seats k with
      | none =>
        rw [Nat.add_comm, follow_add] at hi
        simp [follow, hk] at hi
      | some b => exact (hclosed.keys k b hk).1
    exact h k hkey ⟨j, hj, hcycle⟩
  · rintro h k - ⟨j, -, hcycle⟩
    exact h k j hcycle

end Rules

/-! ### Admission in lockstep -/

section Admission

variable {request : ConvoyRequest} {world : ConvoyWorld}

theorem lookup_absRequest (hnamed : request.Named) (name : SeatName) :
    (absRequest world request).seats[name]? =
      (request.seats.find? fun s => s.name = name).map
        fun s => { absSeat s with replacements := 0 } :=
  Table.lookup_view hnamed name

theorem mem_absRequest (hnamed : request.Named) {name : SeatName} :
    name ∈ (absRequest world request).seats ↔ name ∈ request.seats.map Seat.name := by
  rw [ExtTreeMap.mem_iff_isSome_getElem?, lookup_absRequest hnamed, Option.isSome_map,
    List.find?_isSome, List.mem_map]
  simp

theorem parentAt_absRequest (hnamed : request.Named) :
    Rules.parentAt (absRequest world request).seats = parentOf request.seats := by
  funext name
  rw [Rules.parentAt, lookup_absRequest hnamed, parentOf_eq hnamed]
  cases request.seats.find? fun s => s.name = name <;> rfl

theorem contains_seatNames {seats : List Seat} {name : SeatName} :
    (seatNames seats).contains name = true ↔ name ∈ seats.map Seat.name := by
  rw [ExtTreeSet.contains_iff_mem, mem_seatNames, List.mem_map]

/-- What a request's owners and parents have to be, in either reading. -/
structure ConvoyRequest.Owned (request : ConvoyRequest) : Prop where
  promises : ∀ (id : PromiseId) (p : AdmittedPromise), request.promises[id]? = some p →
    p.owner ∈ request.seats.map Seat.name
  duties : ∀ (id : DutyId) (d : Duty), request.duties[id]? = some d →
    d.owner ∈ request.seats.map Seat.name
  parents : ParentsKnown request.seats

theorem closed_iff : request.closed = true ↔ request.Owned ∧ request.Named := by
  have hsize : (seatNames request.seats).size = request.seats.length ↔ request.Named := by
    rw [← (List.length_map Seat.name : (request.seats.map Seat.name).length = _)]
    exact ⟨nodup_of_size_ofList, size_ofList_of_nodup⟩
  simp only [ConvoyRequest.closed, Bool.and_eq_true, beq_iff_eq, hsize, List.all_eq_true,
    contains_seatNames, Prod.forall, ExtTreeMap.mem_toList_iff_getElem?_eq_some,
    Option.all_eq_true]
  constructor
  · rintro ⟨⟨⟨hpromises, hduties⟩, hparents⟩, hnamed⟩
    exact ⟨⟨hpromises, hduties, hparents⟩, hnamed⟩
  · rintro ⟨⟨hpromises, hduties, hparents⟩, hnamed⟩
    exact ⟨⟨⟨hpromises, hduties⟩, hparents⟩, hnamed⟩

theorem seatsClosed_iff (hnamed : request.Named) :
    Rules.seatsClosed (absRequest world request) = true ↔ request.Owned := by
  simp only [Rules.seatsClosed, Bool.and_eq_true, List.all_eq_true, Prod.forall,
    ExtTreeMap.mem_toList_iff_getElem?_eq_some, ExtTreeMap.contains_iff_mem,
    mem_absRequest hnamed, Option.all_eq_true]
  constructor
  · rintro ⟨⟨hpromises, hduties⟩, hparents⟩
    refine ⟨fun id p hp => ?_, hduties, fun s hs parent hparent => ?_⟩
    · exact hpromises id _ (by rw [absRequest, ExtTreeMap.getElem?_map, hp]; rfl)
    · refine hparents s.name { absSeat s with replacements := 0 } ?_ parent hparent
      rw [lookup_absRequest hnamed, (Table.find?_eq_some_iff hnamed).mpr ⟨hs, rfl⟩]
      rfl
  · rintro ⟨hpromises, hduties, hparents⟩
    refine ⟨⟨fun id p hp => ?_, hduties⟩, fun name r hr parent hparent => ?_⟩
    · rw [absRequest, ExtTreeMap.getElem?_map] at hp
      obtain ⟨p', hp', rfl⟩ := Option.map_eq_some_iff.mp hp
      exact hpromises id p' hp'
    · rw [lookup_absRequest hnamed] at hr
      obtain ⟨s, hs, rfl⟩ := Option.map_eq_some_iff.mp hr
      exact hparents s ((Table.find?_eq_some_iff hnamed).mp hs).1 parent hparent

theorem closed_seats (hnamed : request.Named) (howned : request.Owned) :
    Rules.Closed (absRequest world request).seats := by
  intro a b hab
  rw [parentAt_absRequest hnamed] at hab
  rw [mem_absRequest hnamed]
  exact (parentOf_closed hnamed howned.parents a b hab).2

variable (now : Timestamp)

theorem nodup_ids_spec : ((request.spec now).promises.records.map Promise.id).Nodup := by
  rw [ConvoyRequest.spec, Records.records_ofList, List.map_map]
  exact nodup_keys_toList request.promises

/-- The rows that admission stores, by id. -/
theorem promises_spec (world : ConvoyWorld) (now : Timestamp) :
    Table.view Promise.id absPromise (request.spec now).promises.records =
      (absRequest world request).promises.map fun _ p =>
        { promise := p.promise, source := p.source, owner := p.owner, state := .pending,
          submissions := [] } := by
  apply ExtTreeMap.ext_getElem?
  intro id
  rw [Table.lookup_view (nodup_ids_spec now), ConvoyRequest.spec, Records.records_ofList,
    List.find?_map, ExtTreeMap.getElem?_map, absRequest, ExtTreeMap.getElem?_map]
  rw [← find?_toList request.promises id]
  simp only [Function.comp_def, Option.map_map]
  rfl

/-- The seats that admission stores. -/
theorem records_spec :
    (request.spec now).seats.records =
      request.seats.map fun seat => { seat with retired := false, replacements := 0 } := by
  rw [ConvoyRequest.spec, Records.records_ofList]

theorem seats_spec (world : ConvoyWorld) (now : Timestamp) :
    Table.view Seat.name absSeat (request.spec now).seats.records =
      (absRequest world request).seats := by
  rw [records_spec, Table.view, List.map_map]
  rfl

theorem retiredNames_spec : retiredNames (request.spec now).seats.records = ∅ := by
  have hnone : (request.spec now).seats.records.filter Seat.retired = [] := by
    rw [records_spec, List.filter_eq_nil_iff]
    intro s hs
    obtain ⟨s', -, rfl⟩ := List.mem_map.mp hs
    simp
  rw [retiredNames, hnone]
  rfl

theorem keyed_spec (hnamed : request.Named) (now : Timestamp) : Keyed (request.spec now) where
  ids := nodup_ids_spec now
  names := by
    rw [records_spec, List.map_map]
    exact hnamed

/-- A request that is admitted names each seat once. -/
theorem named_of_admits {now : Timestamp} {admitted : ConvoySpec × ConvoyState}
    (h : admits world now request = .ok admitted) :
    request.Named ∧ admitted = (request.spec now, .opened request.quota ∅) := by
  obtain ⟨-, h⟩ := of_refuseIf h
  obtain ⟨-, h⟩ := of_refuseIf h
  obtain ⟨hclosed, h⟩ := of_refuseIf h
  obtain ⟨-, h⟩ := of_refuseIf h
  obtain ⟨-, h⟩ := of_refuseIf h
  cases h
  exact ⟨(closed_iff.mp (not_not.mp hclosed)).2, rfl⟩

/-- **Admission accepts, refuses and starts a convoy as the specification does.** -/
theorem lockstep_admits (world : ConvoyWorld) (hnamed : request.Named) (now : Timestamp) :
    Lockstep (fun admitted s => absState admitted.1 admitted.2 = s) (admits world now request)
      (Rules.admits world.limitsRead (absRequest world request)) := by
  refine .refuse ?_ fun _ => .refuse ?_ fun _ => .refuse ?_ fun hclosed => .refuse ?_ fun _ =>
    .refuse ?_ fun _ => .ok ?_
  · simp [absRequest, Rules.lifetime, ExtTreeMap.isEmpty_eq_size_beq_zero]
  · simp [absRequest]
  · rw [closed_iff, seatsClosed_iff hnamed, and_iff_left hnamed]
  · have howned := (closed_iff.mp (not_not.mp hclosed)).1
    rw [acyclic_iff hnamed howned.parents, Rules.acyclic_iff (closed_seats hnamed howned),
      parentAt_absRequest hnamed]
  · have hsize : (seatNames request.seats).size = (absRequest world request).seats.size := by
      rw [absRequest, Table.size_view hnamed, seatNames, size_ofList_of_nodup hnamed,
        List.length_map]
    rw [hsize]
  · show Rules.State.opened (absWork (request.spec now) request.quota ∅) = _
    rw [absWork, promises_spec world now, seats_spec world now,
      retiredNames_spec now]
    rfl

end Admission

end Flotilla.Convoy
