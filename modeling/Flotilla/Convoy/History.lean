import Flotilla.Convoy.Invariant

/-!
# Promises over a whole run

A rollover drops a convoy's promises, so that no id returns rests on the promise
floor: every id a convoy was ever given is one of its promises' or below the floor.
A settled promise's row is never written again, until a rollover drops it.
-/

namespace Flotilla.Convoy

open Lib Std
open Engine

/-! ### Ids -/

namespace Rules

variable {w : Work}

/-- The id is a promise's, or can never be one again. -/
def Used (w : Work) (id : PromiseId) : Prop := id ∈ w.promises ∨ id.val < w.promiseFloor

variable {e : Event} {id : PromiseId} {s : State}

theorem lt_promiseFloor_nextGeneration (h : Used w id) :
    id.val < (nextGeneration w).promiseFloor := by
  have hle := (foldl_floor_le_iff w.promises.keys w.promiseFloor
    (nextGeneration w).promiseFloor).mp le_rfl
  rcases h with hid | hid
  · exact hle.2 id (ExtTreeMap.mem_keys.mpr hid)
  · exact hid.trans_le hle.1

theorem Used.moves (hid : Used w id) (h : Moves w e s) : Used s.work id := by
  have hput : ∀ id' p, Used (withPromise w id' p) id := by
    intro id' p
    rcases hid with hid | hid
    · exact .inl (ExtTreeMap.mem_insert.mpr (.inr hid))
    · exact .inr hid
  cases h with
  | declare => exact hput _ _
  | progress => exact hput _ _
  | reassign => exact hput _ _
  | rollover => exact .inr (lt_promiseFloor_nextGeneration hid)
  | _ => exact hid

theorem promiseFloor_le (h : Moves w e s) : w.promiseFloor ≤ s.work.promiseFloor := by
  cases h with
  | rollover =>
    exact ((foldl_floor_le_iff w.promises.keys w.promiseFloor
      (nextGeneration w).promiseFloor).mp le_rfl).1
  | _ => exact le_rfl

end Rules

/-- The id that an edge introduces. -/
def introduces : ConvoyEdge → Option PromiseId
  | .declare e => some e.promise
  | _ => none

/-- The ids that a convoy was given: at admission, and by each edge. -/
def introduced (request : ConvoyRequest) (edges : List ConvoyEdge) : List PromiseId :=
  request.promises.keys ++ edges.filterMap introduces

variable {e : ConvoyEdge} {h : ConvoyHandle} {id : PromiseId} {p : Promise} {r r' : ConvoyResource}
  {request : ConvoyRequest}

/-- An edge introduces an id that was not used, and uses it. -/
theorem introduces_fresh (hr : Ruled r) (h : Applied convoy r e r') (hid : introduces e = some id) :
    ¬ Rules.Used (workOf r) id ∧ Rules.Used (workOf r') id := by
  obtain ⟨quota, retired, number, world, hstate, hstep⟩ := step_of_applied hr.keyed h
  cases e with
  | declare e =>
    cases hid
    obtain ⟨hnew, hstep⟩ := of_refuseIf hstep
    obtain ⟨-, hstep⟩ := of_refuseIf hstep
    obtain ⟨-, hstep⟩ := of_refuseIf hstep
    have hafter : workOf r' = (absState r'.spec r'.state).work := (work_absState _ _).symm
    rw [workOf, hstate, hafter, ← Except.ok.inj hstep]
    have hfresh := hnew
    exact ⟨hfresh, .inl ExtTreeMap.mem_insert_self⟩
  | _ => cases hid

theorem introduced_snoc (edges : List ConvoyEdge) :
    introduced request (edges ++ [e]) = introduced request edges ++ (introduces e).toList := by
  rw [introduced, introduced, List.filterMap_append, List.append_assoc]
  cases he : introduces e <;> simp [he]

theorem used_applied (hr : Ruled r) (h : Applied convoy r e r') (hid : Rules.Used (workOf r) id) :
    Rules.Used (workOf r') id := by
  obtain ⟨quota, retired, number, world, hstate, hmoves⟩ := moves_of_applied hr.keyed h
  rw [workOf, hstate] at hid
  have hid' := hid.moves hmoves
  rw [work_absState] at hid'
  exact hid'

theorem used_admitted (h : Admitted convoy request r) (hid : id ∈ request.promises.keys) :
    Rules.Used (workOf r) id := by
  obtain ⟨name, world, now, version, spec, state, hadmits, -⟩ := h
  obtain ⟨-, heq⟩ := named_of_admits hadmits
  cases heq
  left
  rw [workOf, absWork, promises_spec world, ExtTreeMap.mem_map, absRequest,
    ExtTreeMap.mem_map]
  exact ExtTreeMap.mem_keys.mp hid

/-- Along a run, the introduced ids are distinct and in use. -/
theorem introduced_run {start r : ConvoyResource} {allowed : ConvoyResource → ConvoyEdge → Prop}
    {edges : List ConvoyEdge} (hstart : Admitted convoy request start)
    (run : Run convoy allowed start edges r) :
    (introduced request edges).Nodup ∧
      ∀ id ∈ introduced request edges, Rules.Used (workOf r) id := by
  induction run with
  | nil =>
    rw [introduced, List.filterMap_nil, List.append_nil]
    refine ⟨?_, fun id hid => used_admitted hstart hid⟩
    rw [← ExtTreeMap.map_fst_toList_eq_keys]
    exact nodup_keys_toList request.promises
  | @snoc edges e r r' run' _ happlied ih =>
    obtain ⟨hnodup, hused⟩ := ih
    have hr := ruled_run hstart run'
    rw [introduced_snoc]
    cases hid : introduces e with
    | none =>
      rw [Option.toList_none, List.append_nil]
      exact ⟨hnodup, fun id hmem => used_applied hr happlied (hused id hmem)⟩
    | some id =>
      obtain ⟨hfresh, hnow⟩ := introduces_fresh hr happlied hid
      constructor
      · refine List.nodup_append_comm.mp (List.nodup_cons.mpr ⟨fun hmem => ?_, hnodup⟩)
        exact hfresh (hused id hmem)
      · exact forall_mem_concat (fun id' hmem => used_applied hr happlied (hused id' hmem)) hnow

/-! ### Settled promises -/

theorem openPromise_eq_ok (hp : openPromise h id = .ok p) :
    ∃ i, h.spec.promise id = some (i, p) ∧ p.isOpen = true := by
  rw [openPromise] at hp
  cases hrow : h.spec.promise id with
  | none =>
    rw [hrow] at hp
    cases hp
  | some row =>
    obtain ⟨i, p'⟩ := row
    rw [hrow] at hp
    dsimp only at hp
    split_ifs at hp with hopen
    cases hp
    exact ⟨i, rfl, hopen⟩

/-- What an accepted edge does to the promise rows: it keeps them and may add one, it changes an
open one, or it drops them all below the floor. -/
inductive PromiseChange (before after : ConvoySpec) : Prop where
  | keep (rows : List Promise) (h : after.promises.records = before.promises.records ++ rows)
  | change (i : Nat) (p : Promise) (f : Promise → Promise)
      (hi : before.promises.records[i]? = some p) (hopen : p.isOpen = true)
      (h : after.promises.records = before.promises.records.modify i f)
  | drop (h : after.promiseFloor = nextFloor before)

/-- A write that leaves the promises alone. -/
theorem PromiseChange.same {before after : ConvoySpec}
    (h : after.promises = before.promises) : PromiseChange before after :=
  .keep [] (by rw [h, List.append_nil])

theorem change_progress (hp : openPromise h id = .ok p) (to_ : Progress) (version : Nat) :
    PromiseChange h.spec (commitWrites (progress id to_ h) h.spec version) := by
  obtain ⟨i, hrow, hopen⟩ := openPromise_eq_ok hp
  rw [progress, hrow]
  exact .change i p _ (promise_eq_some hrow).1 hopen (Records.records_modify _ _ _)

theorem promises_commit {quota : Quota} {retired : BTreeSet DutyId}
    (hstate : h.state = .opened quota retired) (hgate : (convoyEdge e).gate h = .ok ())
    {spec : ConvoySpec} (hfit : applyWrites ((convoyEdge e).effect h).2 h.spec 0 = .ok spec)
    (version : Nat) :
    PromiseChange h.spec (commitWrites ((convoyEdge e).effect h).2 h.spec version) := by
  cases e with
  | declare e =>
    obtain ⟨promises, hrecords, hcommit⟩ := commit_append _ (fun _ => rfl) hfit version
    exact .keep _ ((congrArg (fun spec => spec.promises.records) hcommit).trans hrecords)
  | submit e =>
    obtain ⟨p, hp, -⟩ := bind_eq_ok hgate
    obtain ⟨i, hrow, hopen⟩ := openPromise_eq_ok hp
    have hi := (promise_eq_some hrow).1
    simp only [convoyEdge, recordEdge, submit, hrow] at hfit ⊢
    obtain ⟨submissions, -, hcommit⟩ := commit_append _ (apply_submission hi) hfit version
    rw [hcommit]
    split_ifs
    · refine .change i p (fun p => { p with submissions, progress := ⟨.submitted, h.now⟩ }) hi
        hopen ?_
      refine (Records.records_modify _ _ _).trans ?_
      rw [Records.records_modify, List.modify_modify_eq]
      rfl
    · exact .change i p _ hi hopen (Records.records_modify _ _ _)
  | keep e =>
    cases e with
    | observed | verdict =>
      obtain ⟨p, hp, -⟩ := bind_eq_ok hgate
      exact change_progress hp _ version
  | reject e | retract e =>
    obtain ⟨p, hp, -⟩ := bind_eq_ok hgate
    exact change_progress hp _ version
  | reassign e =>
    obtain ⟨p, hp, -⟩ := bind_eq_ok hgate
    obtain ⟨i, hrow, hopen⟩ := openPromise_eq_ok hp
    simp only [convoyEdge, recordEdge, reassign, hrow]
    split_ifs
    · exact .change i p _ (promise_eq_some hrow).1 hopen (Records.records_modify _ _ _)
    · exact .same rfl
  | addSeat e =>
    obtain ⟨seats, -, hcommit⟩ := commit_append _ (fun _ => rfl) hfit version
    exact .same ((congrArg ConvoySpec.promises hcommit).trans rfl)
  | rollover e =>
    simp only [convoyEdge, rollover, hstate]
    obtain ⟨seats, -, hcommit⟩ := commit_generation h.spec
      (Records.ofList 0 (carriedSeats h.spec.seats.records)
        ((length_carriedSeats_le _).trans h.spec.seats.length_records_le))
      (h.spec.duties.filter fun id _ =>
        (h.spec.holding (ConvoyState.opened quota retired).retired).contains id)
      (nextFloor h.spec) version
    refine .drop ?_
    rw [hcommit]
  | resupervise e =>
    simp only [convoyEdge, recordEdge, resupervise]
    split
    · exact .same rfl
    · split_ifs <;> exact .same rfl
  | retireSeat | replaceSeat =>
    simp only [convoyEdge, recordEdge, retireSeat, replaceSeat]
    split <;> exact .same rfl
  | retireDuty | deliver | abandon | readmission =>
    simp only [convoyEdge, retireDuty, deliver, abandon, readmission, hstate]
    exact .same rfl

/-- A settled row stays as it is, or its id has fallen below the floor. -/
def Fixed (p : Promise) (r : ConvoyResource) : Prop :=
  p ∈ r.spec.promises.records ∨ p.id.val < r.spec.promiseFloor

theorem fixed_change {before after : ConvoySpec} (h : PromiseChange before after)
    (hp : p ∈ before.promises.records) (hsettled : p.isOpen = false) :
    p ∈ after.promises.records ∨ p.id.val < after.promiseFloor := by
  cases h with
  | keep rows h =>
    left
    rw [h]
    exact List.mem_append_left _ hp
  | change i q f hi hopen h =>
    left
    rw [h]
    obtain ⟨j, hj⟩ := List.mem_iff_getElem?.mp hp
    have hne : i ≠ j := by
      rintro rfl
      cases hi.symm.trans hj
      rw [hsettled] at hopen
      cases hopen
    refine List.mem_of_getElem? (i := j) ?_
    simp [hne, hj]
  | drop h =>
    right
    rw [h]
    exact (nextFloor_le_iff.mp le_rfl).2 p hp

theorem fixed_applied (hr : Ruled r) (h : Applied convoy r e r') (hp : Fixed p r)
    (hsettled : p.isOpen = false) : Fixed p r' := by
  rcases hp with hp | hp
  · obtain ⟨world, now, version, moved, spec, hv, hwrites, rfl⟩ := h.verdict convoy_sound
    obtain ⟨quota, retired, hstate⟩ := opened_of_verdict hv
    obtain ⟨-, -, hgate, rfl⟩ := Machine.verdict_eq_ok hv
    exact fixed_change (promises_commit hstate hgate hwrites version) hp hsettled
  · obtain ⟨quota, retired, number, world, -, hmoves⟩ := moves_of_applied hr.keyed h
    have hfloor := Rules.promiseFloor_le hmoves
    rw [work_absState] at hfloor
    exact .inr (hp.trans_le hfloor)

/-- **Over every run of a convoy, rollovers included, each promise id is introduced once, and a
promise that is kept or retracted keeps its recorded progress in every later state that holds
it.** -/
theorem run_promises {request : ConvoyRequest} {start r : ConvoyResource}
    {edges : List ConvoyEdge} (hstart : Admitted convoy request start)
    (run : Run convoy anywhere start edges r) :
    (introduced request edges).Nodup ∧
      ∀ p ∈ r.spec.promises.records, p.isOpen = false → ∀ edges' r',
        Run convoy anywhere r edges' r' → ∀ p' ∈ r'.spec.promises.records, p'.id = p.id →
          p'.progress = p.progress := by
  refine ⟨(introduced_run hstart run).1, ?_⟩
  intro p hp hsettled edges' r' run' p' hp' hid
  have hinv : Ruled r' ∧ Fixed p r' :=
    run'.invariant (P := fun r => Ruled r ∧ Fixed p r) ⟨ruled_run hstart run, .inl hp⟩
      fun r₁ e r₂ h₁ _ happlied =>
        ⟨ruled_applied h₁.1 happlied, fixed_applied h₁.1 happlied h₁.2 hsettled⟩
  obtain ⟨hr', hfixed⟩ := hinv
  rcases hfixed with hmem | hbelow
  · rw [List.inj_on_of_nodup_map hr'.keyed.ids hp' hmem hid]
  · have hfloor := hr'.wellFormed.floor p' hp'
    rw [hid] at hfloor
    exact absurd hbelow (Nat.not_lt.mpr hfloor)

def keepChange : ConvoyEdge := .keep (.verdict change lead .operator "merged")

/-- The convoy once its promise is kept. -/
def keptConvoy : ConvoyResource :=
  leadConvoy.commit ((convoyEdge keepChange).effect (leadConvoy.handle openWorld 1)) 2 1

/-- And once it is delivered. -/
def deliveredConvoy : ConvoyResource :=
  keptConvoy.commit ((convoyEdge .deliver).effect (keptConvoy.handle openWorld 2)) 3 2

theorem run_promises_kept :
    (introduced leadRequest [keepChange]).Nodup ∧
      ∀ p ∈ keptConvoy.spec.promises.records, p.isOpen = false →
        ∀ p' ∈ deliveredConvoy.spec.promises.records, p'.id = p.id → p'.progress = p.progress := by
  have hkeep : Applied convoy leadConvoy keepChange keptConvoy := by
    refine ⟨openWorld, 1, 2, _, ?_⟩
    rfl
  have hdeliver : Applied convoy keptConvoy .deliver deliveredConvoy := by
    refine ⟨openWorld, 2, 3, _, ?_⟩
    rfl
  have hrun := run_promises admitted_lead (Run.nil.snoc trivial hkeep)
  exact ⟨hrun.1, fun p hp hsettled => hrun.2 p hp hsettled _ _ (Run.nil.snoc trivial hdeliver)⟩

end Flotilla.Convoy
