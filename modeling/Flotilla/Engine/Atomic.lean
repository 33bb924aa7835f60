import Flotilla.Convoy.Simulation
import Flotilla.Manifest.Machine

/-!
# A home's writes are all or nothing

A home tries an edge's record writes on a copy, hands the edge to its log and then makes the
writes for good, under the version the log gave.  They fit then as they fitted in the trial,
because a write fits by the room in its table and not by a version; and they stay within the
fields the edge declares.

* `Home.writes_atomic` : a failed write leaves the home as it was; one that
  succeeds changes one resource, as its edge declares.
-/

namespace Flotilla.Engine

open Lib
open StateValue (label)

/-- What the record writes of a machine keep to. -/
structure WriteLaws (Write Spec : Type) [RecordWrite Write Spec] where
  Room : Type
  Part : Type
  /-- The rows in the spec's tables. -/
  room : Spec → Room
  /-- What the spec holds under the name of a field, or besides the named fields. -/
  part : Spec → String → Part
  /-- Whether a write fits depends on the room alone. -/
  room_apply : ∀ (write : Write) {s s' : Spec}, room s = room s' → ∀ v v',
    (RecordWrite.apply write s v).map room = (RecordWrite.apply write s' v').map room
  /-- A write changes its own field alone. -/
  part_apply : ∀ {write : Write} {s s' : Spec} {v : Nat}, RecordWrite.apply write s v = .ok s' →
    ∀ name, name ≠ RecordWrite.field Spec write → part s' name = part s name

section Writes

variable {Write Spec : Type} [RecordWrite Write Spec] (laws : WriteLaws Write Spec)
  {writes : List Write} {s s' : Spec} {v : Nat}

theorem applyWrites_room (h : laws.room s = laws.room s') (v v' : Nat) :
    (applyWrites writes s v).map laws.room = (applyWrites writes s' v').map laws.room := by
  induction writes generalizing s s' with
  | nil => exact congrArg Except.ok h
  | cons write writes ih =>
    have hhead := laws.room_apply write h v v'
    simp only [applyWrites, List.foldlM_cons] at ih ⊢
    cases hs : RecordWrite.apply write s v with
    | error e =>
      cases hs' : RecordWrite.apply write s' v' with
      | error e' =>
        rw [hs, hs'] at hhead
        rfl
      | ok t' =>
        rw [hs, hs'] at hhead
        cases hhead
    | ok t =>
      cases hs' : RecordWrite.apply write s' v' with
      | error e' =>
        rw [hs, hs'] at hhead
        cases hhead
      | ok t' =>
        rw [hs, hs'] at hhead
        exact ih (Except.ok.inj hhead)

include laws in
/-- Writes that fit at one version fit at every one. -/
theorem applyWrites_of_fits (h : applyWrites writes s v = .ok s') (v' : Nat) :
    ∃ t, applyWrites writes s v' = .ok t := by
  have hroom : (applyWrites writes s v).map laws.room = (applyWrites writes s v').map laws.room :=
    applyWrites_room laws rfl v v'
  rw [h] at hroom
  cases ht : applyWrites writes s v' with
  | ok t => exact ⟨t, rfl⟩
  | error e =>
    rw [ht] at hroom
    cases hroom

theorem commitWrites_eq (h : applyWrites writes s v = .ok s') : commitWrites writes s v = s' := by
  induction writes generalizing s with
  | nil =>
    cases h
    rfl
  | cons write writes ih =>
    rw [applyWrites, List.foldlM_cons] at h
    obtain ⟨t, ht, h⟩ := bind_eq_ok h
    rw [commitWrites, List.foldl_cons, ht]
    exact ih h

theorem applyWrites_part (h : applyWrites writes s v = .ok s') {name : String}
    (hname : ∀ write ∈ writes, name ≠ RecordWrite.field Spec write) :
    laws.part s' name = laws.part s name := by
  induction writes generalizing s with
  | nil =>
    cases h
    rfl
  | cons write writes ih =>
    obtain ⟨t, ht, h⟩ := bind_eq_ok h
    rw [ih h fun w hw => hname w (List.mem_cons_of_mem _ hw),
      laws.part_apply ht name (hname write List.mem_cons_self)]

end Writes

namespace Home

variable {Request Spec State Label Datum Edge World Write Refusal L : Type}
variable [StateValue State Label Datum] [DecidableEq Label] [DecidableEq Datum]
variable [RecordWrite Write Spec]

variable (m : Machine Request Spec State Label Edge World Write Refusal)
  (laws : WriteLaws Write Spec) (log : Log L Spec State Label Edge Write)
  (createResource : L → Resource Spec State → Except String (Resource Spec State) × L)
  (home : Home L Spec State) (name : String)

/-- What one accepted edge makes of a resource, when the step moves it as `moved` says. -/
structure Changes (edge : Edge) (world : World) (now : Timestamp) (r : Resource Spec State)
    (moved : State × List Write) (r' : Resource Spec State) : Prop where
  step : m.step (r.handle world now) edge = .ok moved
  name : r'.name = r.name
  state : r'.state = moved.1
  since : r'.since = r.sinceOf r'.state now
  label : label r'.state ∈ (m.edge edge).toLabels
  data : ∀ datum ∈ changed r.state r'.state, datum ∈ (m.edge edge).changes
  records : ∀ field, field ∉ (m.edge edge).writes →
    laws.part r'.spec field = laws.part r.spec field
  /-- Every write of the effect fits as it is made for good. -/
  fit : applyWrites moved.2 r.spec r'.version = .ok r'.spec

variable {m} in
theorem changes_commit {edge : Edge} {world : World} {now : Timestamp} {r : Resource Spec State}
    {moved : State × List Write} (h : m.decide r edge world now = .ok moved) (version : Nat) :
    Changes m laws edge world now r moved (r.commit moved version now) := by
  obtain ⟨moved', hmoved, h⟩ := bind_eq_ok h
  obtain ⟨spec, htrial, h⟩ := bind_eq_ok h
  cases h
  obtain ⟨moved', hverdict, hstep⟩ := bind_eq_ok hmoved
  obtain ⟨hwrites, hstep⟩ := of_refuseIf hstep
  obtain ⟨htarget, hstep⟩ := of_refuseIf hstep
  obtain ⟨hdata, hstep⟩ := of_refuseIf hstep
  cases hstep
  have hwrites := not_not.mp hwrites
  have hdata := not_not.mp hdata
  obtain ⟨t, ht⟩ := applyWrites_of_fits laws (mapError_eq_ok htrial) version
  have hspec : (r.commit moved version now).spec = t := commitWrites_eq ht
  refine ⟨hmoved, rfl, rfl, rfl, not_not.mp htarget, fun datum hdatum => ?_,
    fun field hfield => ?_, hspec ▸ ht⟩
  · simpa using List.filter_eq_nil_iff.mp hdata datum (Std.ExtTreeSet.mem_toList.mpr hdatum)
  · rw [hspec]
    refine applyWrites_part laws ht fun write hwrite heq => hfield ?_
    have hmem : RecordWrite.field Spec write ∈ moved.2.map (RecordWrite.field Spec) :=
      List.mem_map_of_mem hwrite
    simpa [heq] using List.filter_eq_nil_iff.mp hwrites _ hmem

/-- **A home's writes are all or nothing**, whatever the log makes of a create: a failed create or
edge leaves every resource as it was, and the history too if the log keeps nothing of what it
refuses; one that succeeds changes one resource, as its edge declares, with the effect's own
writes, which all fit at the version the log gave. -/
theorem writes_atomic :
    (∀ request world now error,
      (home.createWith m createResource name request world now).1 = .error error →
      (home.createWith m createResource name request world now).2.resources = home.resources ∧
        (KeepsNothing createResource log →
          (home.createWith m createResource name request world now).2 = home)) ∧
    (∀ request world now r, (home.createWith m createResource name request world now).1 = .ok r →
      home.resources[name]? = none ∧ ∃ spec state l,
        m.admits world now request = .ok (spec, state) ∧
        createResource home.log { name, spec, state, since := now, version := 0 } = (.ok r, l) ∧
        (home.createWith m createResource name request world now).2 =
          ⟨home.resources.insert name r, l⟩) ∧
    (∀ edge world now error, (home.apply m log name edge world now).1 = .error error →
      (home.apply m log name edge world now).2.resources = home.resources ∧
        (KeepsNothing createResource log → (home.apply m log name edge world now).2 = home)) ∧
    ∀ edge world now event, (home.apply m log name edge world now).1 = .ok event →
      ∃ r moved r' l, Accepts log m home name edge world now r moved r'.version l ∧
        Changes m laws edge world now r moved r' ∧
        (home.apply m log name edge world now).2 = ⟨home.resources.insert name r', l⟩ := by
  refine ⟨fun request world now error h => ?_, fun request world now r h => ?_,
    fun edge world now error h => ?_, fun edge world now event h => ?_⟩
  · rcases createWith_cases createResource home name request world now with
      ⟨_, l, hcreate, hl⟩ | ⟨_, _, _, _, -, -, -, -, hcreate⟩
    · rw [hcreate]
      exact ⟨rfl, fun hkeeps => by rw [hkeeps.create_eq hl]⟩
    · rw [hcreate] at h
      cases h
  · rcases createWith_cases createResource home name request world now with
      ⟨_, _, hcreate, -⟩ | ⟨spec, state, _, l, hfree, hadmits, -, hlog, hcreate⟩
    · rw [hcreate] at h
      cases h
    · rw [hcreate] at h ⊢
      cases h
      exact ⟨hfree, spec, state, l, hadmits, hlog, rfl⟩
  · rcases apply_cases log home name edge world now with
      ⟨_, l, happly, hl, -⟩ | ⟨_, _, _, _, _, -, happly⟩
    · rw [happly]
      exact ⟨rfl, fun hkeeps => by rw [hkeeps.edge_eq hl]⟩
    · rw [happly] at h
      cases h
  · rcases apply_cases log home name edge world now with
      ⟨_, _, happly, -⟩ | ⟨r, moved, version, l, _, haccepts, happly⟩
    · rw [happly] at h
      cases h
    · rw [happly]
      exact ⟨r, moved, _, l, haccepts, changes_commit laws haccepts.decided version, rfl⟩

end Home

/-! ### The machines that keep records -/

/-- Tables of one length take a row alike. -/
theorem append_alike {R : Type} {t t' : Records R} (h : t.records.length = t'.records.length)
    (v v' : Nat) (row : R) :
    (t.append v row = .error .full ∧ t'.append v' row = .error .full) ∨
      ∃ u u', t.append v row = .ok u ∧ t'.append v' row = .ok u' ∧
        u.records = t.records ++ [row] ∧ u'.records = t'.records ++ [row] := by
  by_cases hlt : t.records.length < u32Count
  · obtain ⟨u, hu, hrecords⟩ := Records.append_of_lt v row hlt
    obtain ⟨u', hu', hrecords'⟩ := Records.append_of_lt v' row (h ▸ hlt)
    exact .inr ⟨u, u', hu, hu', hrecords, hrecords'⟩
  · exact .inl ⟨Records.append_of_full hlt, Records.append_of_full (h ▸ hlt)⟩

open Convoy in
/-- A convoy's tables are its promises, each with its submissions, and its seats. -/
def convoyWrites : WriteLaws ConvoyWrite ConvoySpec where
  Room := List Nat × Nat
  Part := Address × Nat × Option (Records Seat) × Option (Records Promise) ×
    Option (BTreeMap DutyId Duty) × Option Nat
  room s := (s.promises.records.map fun p => p.submissions.records.length, s.seats.records.length)
  part s name := (s.project, s.priority, if name = "seats" then some s.seats else none,
    if name = "promises" then some s.promises else none,
    if name = "duties" then some s.duties else none,
    if name = "promise_floor" then some s.promiseFloor else none)
  room_apply write s s' h v v' := by
    obtain ⟨hpromises, hseats⟩ := Prod.mk.inj h
    have hlength : s.promises.records.length = s'.promises.records.length := by
      simpa using congrArg List.length hpromises
    -- a row's own number of submissions is all that a change of the row may change
    have hmodify : ∀ (i : Nat) (f f' : Promise → Promise),
        (∀ p p', p.submissions.records.length = p'.submissions.records.length →
          (f p).submissions.records.length = (f' p').submissions.records.length) →
        (s.promises.records.modify i f).map (fun p => p.submissions.records.length) =
          (s'.promises.records.modify i f').map fun p => p.submissions.records.length := by
      intro i f f' hf
      apply List.ext_getElem?
      intro j
      have hj := congrArg (·[j]?) hpromises
      simp only [List.getElem?_map, List.getElem?_modify] at hj ⊢
      generalize s.promises.records[j]? = row at hj ⊢
      generalize s'.promises.records[j]? = row' at hj ⊢
      rcases row with _ | p <;> rcases row' with _ | p'
      · rfl
      · cases hj
      · cases hj
      · have hp := Option.some.inj hj
        by_cases hij : i = j <;> simp [hij, hf p p' hp, hp]
    cases write with
    | retired | replaced | supervisor | generationPromises | generationDuties | promiseFloor =>
      simp [RecordWrite.apply, ConvoyWrite.apply, Except.map, hpromises, hseats]
    | progress | owner =>
      refine congrArg Except.ok (Prod.ext ?_ hseats)
      simp only [Records.records_modify]
      exact hmodify _ _ _ fun _ _ h => h
    | generationSeats _ after =>
      simp only [RecordWrite.apply, ConvoyWrite.apply,
        Records.foldlM_append_eq_ofList _ after.length_records_le]
      simp [Except.map, bind, Except.bind, pure, Except.pure, hpromises]
    | promise row =>
      simp only [RecordWrite.apply, ConvoyWrite.apply]
      rcases append_alike hlength v v' row with ⟨ht, ht'⟩ | ⟨u, u', ht, ht', hu, hu'⟩ <;>
        rw [ht, ht']
      · rfl
      · simp [Except.map, bind, Except.bind, pure, Except.pure, hu, hu', hpromises, hseats]
    | seat row =>
      simp only [RecordWrite.apply, ConvoyWrite.apply]
      rcases append_alike hseats v v' row with ⟨ht, ht'⟩ | ⟨u, u', ht, ht', hu, hu'⟩ <;>
        rw [ht, ht']
      · rfl
      · simp [Except.map, bind, Except.bind, pure, Except.pure, hu, hu', hpromises, hseats]
    | submission i row =>
      have hi := congrArg (·[i]?) hpromises
      simp only [List.getElem?_map] at hi
      simp only [RecordWrite.apply, ConvoyWrite.apply]
      cases hp : s.promises.records[i]? <;> cases hp' : s'.promises.records[i]? <;>
        simp only [hp, hp', Option.map_none, Option.map_some, reduceCtorEq, Option.some.injEq]
          at hi ⊢
      · simp [Except.map, hpromises, hseats]
      · rcases append_alike hi v v' row with ⟨ht, ht'⟩ | ⟨u, u', ht, ht', hu, hu'⟩ <;> rw [ht, ht']
        · rfl
        · refine congrArg Except.ok (Prod.ext ?_ hseats)
          simp only [Records.records_modify]
          exact hmodify _ _ _ fun _ _ _ => by simp [hu, hu', hi]
  part_apply {write s s' v} h name hname := by
    cases write with
    | promise | seat | generationSeats =>
      obtain ⟨table, -, h⟩ := bind_eq_ok h
      cases h
      simp_all [RecordWrite.field, ConvoyWrite.field]
    | submission i row =>
      simp only [RecordWrite.apply, ConvoyWrite.apply] at h
      split at h
      · obtain ⟨table, -, h⟩ := bind_eq_ok h
        cases h
        simp_all [RecordWrite.field, ConvoyWrite.field]
      · cases h
        rfl
    | retired | replaced | supervisor | progress | owner | generationPromises | generationDuties
      | promiseFloor =>
      cases h
      simp_all [RecordWrite.field, ConvoyWrite.field]

open Manifest in
/-- Every write of a manifest root replaces a table whole. -/
def rootWrites : WriteLaws RootWrite RootSpec where
  Room := Unit
  Part := RootSpec
  room _ := ()
  part s name := {
    host := s.host, path := s.path, source := s.source
    baselines := if name = "baselines" then s.baselines else ∅
    refusals := if name = "refusals" then s.refusals else ∅
    suspended := if name = "suspended" then s.suspended else ∅
    resolutions := if name = "resolutions" then s.resolutions else ∅
    removals := if name = "removals" then s.removals else ∅ }
  room_apply _ _ _ _ _ _ := rfl
  part_apply := by
    rintro write s s' v h name hname
    cases h
    cases write <;> simp_all [RootWrite.on, RecordWrite.field]

/-! ### A convoy at its home -/

namespace Home

open Convoy

/-- An in-memory log whose creates mark the convoy with their version, and that takes no second
convoy. -/
def markedCreate (l : MemoryLog ConvoyLabel ConvoyEdge) (r : Resource ConvoySpec ConvoyState) :
    Except String (Resource ConvoySpec ConvoyState) × MemoryLog ConvoyLabel ConvoyEdge :=
  if l.sequence = 0 then
    (.ok { r with spec := { r.spec with priority := l.next 0 }, version := l.next 0 },
      { l with sequence := l.next 0 })
  else (.error "one convoy", l)

theorem keepsNothing_marked : KeepsNothing markedCreate
    (memoryLog : Log _ ConvoySpec ConvoyState ConvoyLabel ConvoyEdge ConvoyWrite) := by
  refine ⟨fun l r message l' h => ?_, fun l previous next event writes message l' h => ?_⟩
  · rw [markedCreate] at h
    split at h
    · cases h
    · cases h
      rfl
  · cases h

/-- The log takes the first convoy and the submission, and not a second convoy; an edge on a name
that is not held fails. -/
theorem writes_atomic_lead :
    let home := Home.memory convoy (submissions 0)
    (home.createWith convoy markedCreate "next" leadRequest openWorld 1).2 = home ∧
      (home.apply convoy memoryLog "next" submitAgain openWorld 1).2 = home ∧
      ∃ moved r' l, Accepts memoryLog convoy home "convoy" submitAgain openWorld 1 leadConvoy moved
          r'.version l ∧
        Changes convoy convoyWrites submitAgain openWorld 1 leadConvoy moved r' ∧
        moved.2.length = 2 ∧
        (home.apply convoy memoryLog "convoy" submitAgain openWorld 1).2 =
          ⟨home.resources.insert "convoy" r', l⟩ := by
  intro home
  obtain ⟨hcreate, -, happly, -⟩ := writes_atomic convoy convoyWrites memoryLog markedCreate home
    "next"
  obtain ⟨-, -, -, hok⟩ := writes_atomic convoy convoyWrites memoryLog markedCreate home "convoy"
  refine ⟨(hcreate leadRequest openWorld 1 _ rfl).2 keepsNothing_marked,
    (happly submitAgain openWorld 1 _ rfl).2 keepsNothing_marked, ?_⟩
  obtain ⟨r, moved, r', l, haccepts, hchanges, hhome⟩ := hok submitAgain openWorld 1 _ rfl
  obtain rfl : leadConvoy = r := Option.some.inj (submissions_zero.symm.trans haccepts.held)
  refine ⟨moved, r', l, haccepts, hchanges, ?_, hhome⟩
  cases hchanges.step
  rfl

end Home

end Flotilla.Engine
