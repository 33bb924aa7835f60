import Flotilla.Manifest.Machine

/-!
# The rules of a manifest root

`Rules.step` is the pure specification of a manifest root (`manifest_root.qnt`).  It
keeps every record in the state, has no times, and reads an absent binding or source
error as the empty text.  Acts, outcomes, resolutions and refusals are the machine's
own; a map is built from its keys (`mapBy`), as the specification builds it.
-/

namespace Flotilla.Manifest.Rules

open Lib Std

inductive AppliedRevision where
  | noRevision
  | atRevision (revision : String)
  deriving DecidableEq

structure Records where
  binding : String
  applied : AppliedRevision
  sourceError : String
  baselines : BTreeMap String String
  refusals : BTreeMap String String
  suspended : BTreeSet String
  resolutions : BTreeMap String ResolutionRecord
  removals : BTreeMap String String
  deriving DecidableEq

inductive State where
  | bound (records : Records)
  | retired (records : Records)
  deriving DecidableEq

inductive Event where
  | applied (applied : Applied)
  | sourceFailed (error : String)
  | suspend (document : String)
  | unsuspend (document : String)
  | requestResolution (document : String) (act : Act) (token requestedBy : String)
  | resolve (document token : String) (outcome : Outcome)
  | rebind (binding : String)
  | retire

inductive Next where
  | moved (state : State)
  | refused (refusal : RootRefusal)
  deriving DecidableEq

/-- The map over `keys`; `f` has a value at each of them. -/
def mapBy {V : Type} (keys : List String) (f : String → Option V) : BTreeMap String V :=
  .ofList (keys.filterMap fun k => (f k).map (k, ·)) compare

/-- `m` with each of `docs` replaced by its value in `other`, or removed where `other` has none. -/
def replaceKeys (m : BTreeMap String String) (docs : BTreeSet String)
    (other : BTreeMap String String) : BTreeMap String String :=
  mapBy ((m.keys ++ other.keys).filter fun k => if k ∈ docs then k ∈ other else true)
    fun k => if k ∈ docs then other[k]? else m[k]?

/-- What a pass leaves of the records. -/
def afterPass (x : Records) (a : Applied) : Records :=
  let docs (m : BTreeMap String String) : BTreeSet String :=
    if a.complete then (ExtTreeSet.ofList m.keys compare) ∪ a.reached else a.reached
  { x with
    applied := if a.complete then .atRevision a.revision else x.applied
    sourceError := ""
    baselines := replaceKeys x.baselines (docs x.baselines) a.baselines
    refusals := replaceKeys x.refusals (docs x.refusals) a.refusals
    removals := replaceKeys x.removals (docs x.removals) a.removals
    suspended := if a.complete then x.suspended ∩ a.reached else x.suspended
    resolutions := if a.complete
      then mapBy (x.resolutions.keys.filter (· ∈ a.reached)) (x.resolutions[·]?)
      else x.resolutions }

/-- The step of a resolution outcome at its current request. -/
def resolveStep (x : Records) (document : String) (current : ResolutionRecord)
    (outcome : Outcome) : Next :=
  let settle : Next :=
    .moved (.bound { x with
      resolutions := x.resolutions.insert document { current with outcome } })
  match outcome with
  | .requested => .refused .empty
  | .started => if current.outcome = .started then .refused .unchanged else settle
  | .failed reason =>
    if reason = "" then .refused .empty
    else if current.outcome ≠ .started then .refused .unclaimed
    else settle
  | _ => if current.outcome ≠ .started then .refused .unclaimed else settle

/-- The step of a root that is bound. -/
def boundStep (x : Records) : Event → Next
  | .applied a =>
    if ¬ ∀ document ∈ a.baselines.keys ++ a.refusals.keys ++ a.removals.keys, document ∈ a.reached
    then .refused .unreached
    else if a.complete ∧ a.revision = "" then .refused .empty
    else if afterPass x a = x then .refused .unchanged
    else .moved (.bound (afterPass x a))
  | .sourceFailed error =>
    if error = "" then .refused .empty
    else if error = x.sourceError then .refused .unchanged
    else .moved (.bound { x with sourceError := error })
  | .suspend document =>
    if document ∈ x.suspended then .refused .unchanged
    else .moved (.bound { x with suspended := x.suspended.insert document })
  | .unsuspend document =>
    if document ∉ x.suspended then .refused .unchanged
    else .moved (.bound { x with suspended := x.suspended.erase document })
  | .requestResolution document act token requestedBy =>
    if token = "" then .refused .empty
    else if x.resolutions[document]?.any fun current => current.token = token then
      .refused .unchanged
    else .moved (.bound { x with
      resolutions :=
        x.resolutions.insert document { act, token, requestedBy, outcome := .requested } })
  | .resolve document token outcome =>
    match x.resolutions[document]? with
    | none => .refused .noRequest
    | some current =>
      if current.token ≠ token then .refused .noRequest
      else if current.outcome.settled then .refused .settled
      else resolveStep x document current outcome
  | .rebind binding =>
    if binding = x.binding then .refused .unchanged
    else .moved (.bound { x with binding })
  | .retire => .moved (.retired x)

def step (s : State) (event : Event) : Next :=
  match s with
  | .retired _ => .refused .ended
  | .bound x => boundStep x event

/-- The state after events that all move. -/
def run (s : State) : List Event → Option State
  | [] => some s
  | event :: events =>
    match step s event with
    | .moved s' => run s' events
    | .refused _ => none

theorem run_snoc {s s' : State} {events : List Event} {event : Event} {next : State}
    (h : run s events = some s') (hstep : step s' event = .moved next) :
    run s (events ++ [event]) = some next := by
  induction events generalizing s with
  | nil =>
    obtain rfl := Option.some.inj h
    rw [List.nil_append, run, hstep]
    rfl
  | cons e events ih =>
    rw [run] at h
    rw [List.cons_append, run]
    split at h
    case h_1 => exact ih h
    case h_2 => cases h

/-! ### Lookups -/

theorem lookup_mapBy {V : Type} (keys : List String) (f : String → Option V) (k : String) :
    (mapBy keys f)[k]? = if k ∈ keys then f k else none := by
  cases h : (mapBy keys f)[k]? with
  | some v =>
    have hmem := mem_of_lookup_ofList h
    rw [List.mem_filterMap] at hmem
    obtain ⟨k', hk', heq⟩ := hmem
    obtain ⟨v', hv', hpair⟩ := Option.map_eq_some_iff.mp heq
    cases hpair
    rw [if_pos hk', hv']
  | none =>
    split
    case isFalse => rfl
    case isTrue hk =>
      cases hf : f k with
      | none => rfl
      | some v =>
        exfalso
        have hmem : k ∈ mapBy keys f := by
          rw [mapBy, ExtTreeMap.mem_ofList, List.contains_iff_mem, List.mem_map]
          exact ⟨(k, v), List.mem_filterMap.mpr ⟨k, hk, by rw [hf]; rfl⟩, rfl⟩
        rw [ExtTreeMap.mem_iff_isSome_getElem?, h] at hmem
        cases hmem

theorem lookup_replaceKeys (m : BTreeMap String String) (docs : BTreeSet String)
    (other : BTreeMap String String) (k : String) :
    (replaceKeys m docs other)[k]? = if k ∈ docs then other[k]? else m[k]? := by
  rw [replaceKeys, lookup_mapBy]
  split
  case isTrue => rfl
  case isFalse hk =>
    -- A key that is not listed has no value on either side.
    rw [List.mem_filter, List.mem_append, ExtTreeMap.mem_keys, ExtTreeMap.mem_keys] at hk
    by_cases hdoc : k ∈ docs
    · rw [if_pos hdoc]
      refine (ExtTreeMap.getElem?_eq_none fun hother => hk ?_).symm
      exact ⟨.inr hother, by simp [hdoc, hother]⟩
    · rw [if_neg hdoc]
      refine (ExtTreeMap.getElem?_eq_none fun hm => hk ?_).symm
      exact ⟨.inl hm, by simp [hdoc]⟩

end Flotilla.Manifest.Rules
