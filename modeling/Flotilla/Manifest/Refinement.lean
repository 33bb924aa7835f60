import Flotilla.Manifest.Rules

/-!
# A manifest root follows its rules

The machine of a manifest root accepts and refuses exactly as the specification
does, at every time and from every state it can reach, and reaches the
corresponding records (`decide_follows`).  The specification has no times.  A pass
is compared with the records it finds, and those hold times, but a refusal that
stands for the same reason keeps its time and a pass that clears nothing leaves the
source error and its time absent (`Settled`), so the two notions of "unchanged"
agree (`unchanged_iff`).
-/

namespace Flotilla.Manifest

open Lib Std
open Engine

/-! ### The machine keeps to its declarations -/

/-- Writing what lies between two specs of one root gives the second. -/
theorem foldl_writesBetween {spec after : RootSpec} (hhost : after.host = spec.host)
    (hpath : after.path = spec.path) (hsource : after.source = spec.source) :
    (writesBetween spec after).foldl (fun s write => write.on s) spec = after := by
  have hite : ∀ {p : Prop} [Decidable p] s (write : RootWrite),
      (if p then [write] else []).foldl (fun s write => RootWrite.on write s) s =
        if p then write.on s else s := by
    intro p _ s write
    split <;> rfl
  simp only [writesBetween, List.foldl_append, hite]
  cases after
  simp only [RootWrite.on]
  split_ifs <;> simp_all

variable {a : Applied} {edge : RootEdge} {h : RootHandle} {k : String}
  {moved : RootState × List RootWrite} {now : Timestamp} {r : Resource RootSpec RootState}
  {scalars : Scalars} {spec : RootSpec}

theorem pass_eq_ok {state : RootState} {applied : Applied} {next : RootSpec × RootState}
    (h : pass spec state applied now = .ok next) :
    (∀ document ∈ applied.recorded, document ∈ applied.reached) ∧
      ¬ (applied.complete = true ∧ applied.revision = "") ∧
      next = (applied.leaves spec now, .bound (applied.leavesScalars state.scalars)) := by
  obtain ⟨hreached, hrest⟩ := of_refuseIf h
  obtain ⟨hrevision, hrest⟩ := of_refuseIf hrest
  refine ⟨?_, hrevision, (Except.ok.inj hrest).symm⟩
  simpa using hreached

/-- What an accepted edge leaves. -/
def after (edge : RootEdge) (spec : RootSpec) (scalars : Scalars) (now : Timestamp) :
    RootSpec × RootState :=
  match edge with
  | .applied a => (a.leaves spec now, .bound (a.leavesScalars scalars))
  | .sourceFailed error =>
    (spec, .bound { scalars with sourceError := some error, sourceFailedAt := some now })
  | .suspend document =>
    ({ spec with suspended := spec.suspended.insert document }, .bound scalars)
  | .unsuspend document =>
    ({ spec with suspended := spec.suspended.erase document }, .bound scalars)
  | .requestResolution document act token requestedBy =>
    let record : ResolutionRecord := { act, token, requestedBy, outcome := .requested }
    ({ spec with resolutions := spec.resolutions.insert document record }, .bound scalars)
  | .resolve document _ outcome =>
    match spec.resolutions[document]? with
    | some record =>
      ({ spec with resolutions := spec.resolutions.insert document { record with outcome } },
        .bound scalars)
    | none => (spec, .bound scalars)
  | .rebind binding => (spec, .bound { scalars with binding })
  | .retire => (spec, .retired scalars)

/-- An effect leaves what `after` says. -/
theorem effect_eq (hstate : h.state = .bound scalars) (hgate : (rootEdge edge).gate h = .ok ()) :
    (((rootEdge edge).effect h).2.foldl (fun s write => write.on s) h.spec,
      ((rootEdge edge).effect h).1) = after edge h.spec scalars h.now := by
  cases edge with
  | applied a =>
    obtain ⟨next, hpass, -⟩ := bind_eq_ok (show gateApplied a h = .ok () from hgate)
    obtain ⟨-, -, rfl⟩ := pass_eq_ok hpass
    have hwrites : (writesBetween h.spec (a.leaves h.spec h.now)).foldl
        (fun s write => write.on s) h.spec = a.leaves h.spec h.now :=
          foldl_writesBetween rfl rfl rfl
    simp only [rootEdge, applyPass, hpass, after, hwrites]
    rw [hstate]
    rfl
  | resolve document token outcome =>
    simp only [rootEdge, resolve, after]
    cases h.spec.resolutions[document]? <;> simp [hstate, setResolution, RootWrite.on]
  | sourceFailed error => simp [rootEdge, sourceFailed, after, hstate, RootState.scalars]
  | suspend | unsuspend => simp [rootEdge, suspend, unsuspend, after, hstate, RootWrite.on]
  | requestResolution document act token requestedBy =>
    simp [rootEdge, requestResolution, setResolution, after, hstate, RootWrite.on]
  | rebind | retire => simp [rootEdge, after, hstate, RootState.scalars]

theorem bound_of_verdict (hv : root.verdict h edge = .ok moved) :
    ∃ scalars, h.state = .bound scalars := by
  obtain ⟨hend, -⟩ := Machine.verdict_eq_ok hv
  cases hstate : h.state with
  | bound scalars => exact ⟨scalars, rfl⟩
  | retired scalars =>
    rw [hstate] at hend
    cases hend

theorem root_sound : root.Sound where
  writes h edge moved hv := by
    obtain ⟨-, -, -, rfl⟩ := Machine.verdict_eq_ok hv
    intro write hwrite
    cases edge with
    | applied a => cases write <;> simp [root, rootEdge, RecordWrite.field]
    | resolve document token outcome =>
      simp only [root, rootEdge, resolve, setResolution] at hwrite ⊢
      split at hwrite <;> simp_all [RecordWrite.field]
    | suspend | unsuspend | requestResolution =>
      simp_all [root, rootEdge, suspend, unsuspend, requestResolution, setResolution,
        RecordWrite.field]
    | sourceFailed | rebind | retire => simp_all [root, rootEdge, sourceFailed]
  target h edge moved hv := by
    obtain ⟨scalars, hstate⟩ := bound_of_verdict hv
    obtain ⟨-, -, hgate, rfl⟩ := Machine.verdict_eq_ok hv
    have heffect := congrArg Prod.snd (effect_eq hstate hgate)
    show StateValue.label ((rootEdge edge).effect h).1 ∈ (rootEdge edge).toLabels
    rw [show ((rootEdge edge).effect h).1 = (after edge h.spec scalars h.now).2 from heffect]
    cases edge with
    | resolve document token outcome =>
      simp only [after, rootEdge]
      cases h.spec.resolutions[document]? <;> exact List.mem_singleton.mpr rfl
    | _ => exact List.mem_singleton.mpr rfl
  changes h edge moved hv := by
    obtain ⟨scalars, hstate⟩ := bound_of_verdict hv
    obtain ⟨-, -, hgate, rfl⟩ := Machine.verdict_eq_ok hv
    have heffect := congrArg Prod.snd (effect_eq hstate hgate)
    intro datum hnext hprevious
    change datum ∈ StateValue.data ((rootEdge edge).effect h).1 at hnext
    rw [show ((rootEdge edge).effect h).1 = (after edge h.spec scalars h.now).2 from heffect]
      at hnext
    rw [hstate] at hprevious
    show datum.1 ∈ (rootEdge edge).changes
    cases edge with
    | resolve document token outcome =>
      simp only [after] at hnext
      cases hr : h.spec.resolutions[document]? <;> rw [hr] at hnext <;> exact absurd hnext hprevious
    | suspend | unsuspend | requestResolution | retire => exact absurd hnext hprevious
    | applied | sourceFailed | rebind =>
      simp only [after, StateValue.data, RootState.scalars, Applied.leavesScalars, List.mem_cons,
        List.not_mem_nil, or_false] at hnext hprevious
      rcases hnext with rfl | rfl | rfl | rfl <;> simp_all [rootEdge]

/-- A home decides by the verdict alone: the writes of a root always fit. -/
theorem decide_eq :
    root.decide r edge () now = (root.verdict (r.handle () now) edge).mapError .refused := by
  have hfits : ∀ (writes : List RootWrite) (spec : RootSpec),
      applyWrites writes spec 0 = .ok (writes.foldl (fun s write => write.on s) spec) := by
    intro writes
    induction writes with
    | nil => exact fun spec => rfl
    | cons write writes ih => exact fun spec => ih (write.on spec)
  rw [Machine.decide, root_sound.step_eq_verdict]
  cases hv : root.verdict (r.handle () now) edge with
  | error refusal => rfl
  | ok moved =>
    show ((applyWrites moved.2 r.spec 0).mapError _ >>= _) = _
    rw [hfits]
    rfl

/-- **An accepted edge**: the root was bound, the gate allowed it, and it leaves what `after`
says. -/
theorem decide_eq_ok (h : root.decide r edge () now = .ok moved) :
    ∃ scalars, r.state = .bound scalars ∧ (rootEdge edge).gate (r.handle () now) = .ok () ∧
      ∀ version, ((r.commit moved version now).spec, (r.commit moved version now).state) =
        after edge r.spec scalars now := by
  rw [decide_eq] at h
  have hv := mapError_eq_ok h
  obtain ⟨scalars, hstate⟩ := bound_of_verdict hv
  obtain ⟨-, -, hgate, rfl⟩ := Machine.verdict_eq_ok hv
  exact ⟨scalars, hstate, hgate, fun version => effect_eq hstate hgate⟩

/-! ### Reading the records -/

/-- How the specification writes a binding: different bindings differently, and none of them
empty. -/
structure BindingText where
  text : CharterSource → String
  injective : Function.Injective text
  ne_empty : ∀ source, text source ≠ ""

/-- An absent binding reads as empty. -/
def BindingText.read (t : BindingText) (binding : Option CharterSource) : String :=
  (binding.map t.text).getD ""

variable (refusal : RootRefusal) (t : BindingText)

theorem BindingText.read_injective : Function.Injective t.read := by
  intro a b h
  cases a with
  | none =>
    cases b with
    | none => rfl
    | some b => exact absurd h.symm (t.ne_empty b)
  | some a =>
    cases b with
    | none => exact absurd h (t.ne_empty a)
    | some b => exact congrArg some (t.injective h)

def readRevision : Option String → Rules.AppliedRevision
  | none => .noRevision
  | some revision => .atRevision revision

theorem readRevision_injective : Function.Injective readRevision := by
  intro a b h
  cases a <;> cases b <;> simp_all [readRevision]

/-- The records of a root, as the specification keeps them. -/
def records (t : BindingText) (spec : RootSpec) (scalars : Scalars) : Rules.Records where
  binding := t.read scalars.binding
  applied := readRevision scalars.applied
  sourceError := scalars.sourceError.getD ""
  baselines := spec.baselines
  refusals := spec.refusals.map fun _ refusal => refusal.reason
  suspended := spec.suspended
  resolutions := spec.resolutions
  removals := spec.removals

def readState (t : BindingText) (spec : RootSpec) : RootState → Rules.State
  | .bound scalars => .bound (records t spec scalars)
  | .retired scalars => .retired (records t spec scalars)

/-- A root as the specification sees it. -/
def read (t : BindingText) (r : Resource RootSpec RootState) : Rules.State :=
  readState t r.spec r.state

def readEdge (t : BindingText) : RootEdge → Rules.Event
  | .applied a => .applied a
  | .sourceFailed error => .sourceFailed error
  | .suspend document => .suspend document
  | .unsuspend document => .unsuspend document
  | .requestResolution document act token requestedBy =>
    .requestResolution document act token requestedBy
  | .resolve document token outcome => .resolve document token outcome
  | .rebind binding => .rebind (t.read binding)
  | .retire => .retire

/-- A source error is a text, recorded exactly when its start time is. -/
structure Settled (scalars : Scalars) : Prop where
  error : scalars.sourceError ≠ some ""
  time : scalars.sourceError.isSome = scalars.sourceFailedAt.isSome

/-! ### Passes -/

/-- Filtering by the key alone. -/
theorem lookup_filter_key {V : Type} (m : BTreeMap String V) (p : String → Bool) :
    (m.filter fun name _ => p name)[k]? = if p k then m[k]? else none := by
  rw [ExtTreeMap.getElem?_filter']
  cases m[k]? <;> simp [Option.filter]

theorem lookup_replace {V : Type} (current : BTreeMap String V) (replaced : BTreeSet String)
    (other : BTreeMap String V) :
    (replace current replaced other)[k]? = if k ∈ replaced then other[k]? else current[k]? := by
  rw [replace, ExtTreeMap.getElem?_union, lookup_filter_key, lookup_filter_key]
  by_cases hk : k ∈ replaced
  · have hc : replaced.contains k = true := ExtTreeSet.contains_iff_mem.mpr hk
    simp [hc, hk]
  · simp [ExtTreeSet.contains_iff_mem, hk]

theorem Applied.mem_replacedIn {keys : List String} :
    k ∈ a.replacedIn keys ↔ (a.complete = true ∧ k ∈ keys) ∨ k ∈ a.reached := by
  unfold Applied.replacedIn
  split
  case isTrue h =>
    rw [ExtTreeSet.mem_ofList, List.contains_iff_mem, List.mem_append,
      ExtTreeSet.mem_toList]
    simp [h]
  case isFalse h => simp [h]

/-- The documents that a pass replaces in a map, as the specification lists them. -/
theorem mem_docs {m : BTreeMap String String} :
    (k ∈ if a.complete then (ExtTreeSet.ofList m.keys compare) ∪ a.reached else a.reached) ↔
      k ∈ a.replacedIn m.keys := by
  rw [Applied.mem_replacedIn]
  split
  case isTrue h => simp [h, ExtTreeSet.mem_union_iff, ExtTreeSet.mem_ofList]
  case isFalse h => simp [h]

theorem mem_keys_map {V W : Type} (m : BTreeMap String V) (f : V → W) :
    k ∈ (m.map fun _ v => f v).keys ↔ k ∈ m.keys := by
  simp [ExtTreeMap.mem_keys]

theorem lookup_refusalRecords (standing : BTreeMap String RefusalRecord) :
    (a.refusalRecords standing now)[k]? = a.refusals[k]?.map fun reason =>
      { reason
        since := match standing[k]? with
          | some current => if current.reason = reason then current.since else now
          | none => now } :=
  ExtTreeMap.getElem?_map

/-- The reasons that a pass leaves standing. -/
theorem reason_leaves (a : Applied) (spec : RootSpec) (now : Timestamp) (k : String) :
    (a.leaves spec now).refusals[k]?.map RefusalRecord.reason =
      if k ∈ a.replacedIn spec.refusals.keys then a.refusals[k]?
      else spec.refusals[k]?.map RefusalRecord.reason := by
  rw [Applied.leaves, lookup_replace]
  split
  · rw [lookup_refusalRecords, Option.map_map]
    simp [Function.comp_def]
  · rfl

/-- **A pass leaves the specified records.** -/
theorem afterPass_records (a : Applied) (spec : RootSpec) (scalars : Scalars) (now : Timestamp) :
    Rules.afterPass (records t spec scalars) a =
      records t (a.leaves spec now) (a.leavesScalars scalars) := by
  have hreplace : ∀ m other, Rules.replaceKeys m
      (if a.complete then (ExtTreeSet.ofList m.keys compare) ∪ a.reached else a.reached) other =
        replace m (a.replacedIn m.keys) other := by
    intro m other
    apply ExtTreeMap.ext_getElem?
    intro k
    rw [Rules.lookup_replaceKeys, lookup_replace]
    simp only [mem_docs]
  simp only [Rules.afterPass, records, Rules.Records.mk.injEq]
  refine ⟨rfl, ?_, rfl, hreplace _ _, ?_, ?_, ?_, hreplace _ _⟩
  case _ =>
    unfold Applied.leavesScalars
    cases a.complete <;> rfl
  case _ =>
    -- The refusals: the times drop out.
    apply ExtTreeMap.ext_getElem?
    intro k
    have hleaves := reason_leaves a spec now k
    rw [Rules.lookup_replaceKeys]
    simp only [ExtTreeMap.getElem?_map, mem_docs, Applied.mem_replacedIn, mem_keys_map] at *
    exact hleaves.symm
  case _ =>
    simp only [Applied.leaves]
    cases a.complete with
    | false => rfl
    | true =>
      apply ExtTreeSet.ext_mem
      intro k
      simp [ExtTreeSet.mem_inter_iff, ExtTreeSet.mem_filter]
  case _ =>
    simp only [Applied.leaves]
    cases a.complete with
    | false => rfl
    | true =>
      apply ExtTreeMap.ext_getElem?
      intro k
      rw [if_pos rfl, if_pos rfl, Rules.lookup_mapBy, lookup_filter_key]
      by_cases hk : k ∈ a.reached
      · by_cases hm : k ∈ spec.resolutions
        · simp [ExtTreeSet.contains_iff_mem, hk, hm]
        · simp [ExtTreeSet.contains_iff_mem, hm]
      · simp [ExtTreeSet.contains_iff_mem, hk]

/-- A pass that leaves the reasons leaves the refusals with their times. -/
theorem refusals_leaves_eq (h : ((a.leaves spec now).refusals.map fun _ refusal => refusal.reason) =
      spec.refusals.map fun _ refusal => refusal.reason) :
    (a.leaves spec now).refusals = spec.refusals := by
  apply ExtTreeMap.ext_getElem?
  intro k
  have hk : (a.leaves spec now).refusals[k]?.map RefusalRecord.reason =
      spec.refusals[k]?.map RefusalRecord.reason := by
    have hlookup := congrArg (fun m => m[k]?) h
    simpa only [ExtTreeMap.getElem?_map] using hlookup
  rw [reason_leaves] at hk
  rw [Applied.leaves, lookup_replace]
  split
  case isFalse => rfl
  case isTrue hmem =>
    rw [if_pos hmem] at hk
    rw [lookup_refusalRecords, hk]
    cases spec.refusals[k]? <;> simp

/-- **The two notions of "unchanged" agree.** -/
theorem unchanged_iff (hs : Settled scalars) :
    Rules.afterPass (records t spec scalars) a = records t spec scalars ↔
      (a.leaves spec now).sameRecords spec ∧
        RootState.bound (a.leavesScalars scalars) = .bound scalars := by
  rw [afterPass_records t a spec scalars now, RootSpec.sameRecords, RootState.bound.injEq]
  constructor
  · intro h
    simp only [records, Rules.Records.mk.injEq] at h
    obtain ⟨-, happlied, herror, hbaselines, hrefusals, hsuspended, hresolutions, hremovals⟩ := h
    refine ⟨⟨hbaselines, refusals_leaves_eq hrefusals, hsuspended, hresolutions, hremovals⟩, ?_⟩
    -- With no source error there is no start time either.
    have hnone : scalars.sourceError = none := by
      cases he : scalars.sourceError with
      | none => rfl
      | some error =>
        rw [he] at herror
        exact absurd (he.trans (congrArg some herror.symm)) hs.error
    have htime : scalars.sourceFailedAt = none := by
      have := hs.time
      rw [hnone] at this
      simpa using this.symm
    obtain ⟨binding, applied, sourceError, sourceFailedAt⟩ := scalars
    simp only [Applied.leavesScalars, Scalars.mk.injEq, true_and]
    exact ⟨readRevision_injective happlied, hnone.symm, htime.symm⟩
  · rintro ⟨⟨hbaselines, hrefusals, hsuspended, hresolutions, hremovals⟩, hscalars⟩
    rw [hscalars]
    simp only [records, hbaselines, hrefusals, hsuspended, hresolutions, hremovals]

/-! ### The simulation -/

/-- What a gate's verdict is in the specification, where accepting would lead to `s`. -/
def ruling : Except RootRefusal Unit → Rules.State → Rules.Next
  | .error refusal, _ => .refused refusal
  | .ok (), s => .moved s

theorem ruling_refuseIf {p : Prop} [Decidable p] (s : Rules.State) :
    ruling (refuseIf p refusal) s = if p then .refused refusal else .moved s := by
  unfold refuseIf
  split <;> rfl

theorem ruling_refuseIf_bind {p : Prop} [Decidable p] (f : Unit → Except RootRefusal Unit)
    (s : Rules.State) :
    ruling (refuseIf p refusal >>= f) s = if p then .refused refusal else ruling (f ()) s := by
  unfold refuseIf
  split <;> rfl

theorem gateApplied_follows (a : Applied) (hstate : h.state = .bound scalars)
    (hs : Settled scalars) :
    Rules.boundStep (records t h.spec scalars) (.applied a) =
      ruling (gateApplied a h)
        (.bound (records t (a.leaves h.spec h.now) (a.leavesScalars scalars))) := by
  have hreached : (a.recorded.any fun document => !a.reached.contains document) = true ↔
      ¬ ∀ document ∈ a.baselines.keys ++ a.refusals.keys ++ a.removals.keys,
        document ∈ a.reached := by
    rw [List.any_eq_true]
    push Not
    simp only [Applied.recorded, Bool.not_eq_true', ← Bool.not_eq_true,
      ExtTreeSet.contains_iff_mem]
  simp only [gateApplied, pass, bind_assoc, pure_bind, hstate, RootState.scalars]
  rw [ruling_refuseIf_bind, ruling_refuseIf_bind, ruling_refuseIf, Rules.boundStep]
  simp only [hreached, ← unchanged_iff t hs, afterPass_records t a h.spec scalars h.now]

theorem gateResolve_follows (document token : String) (outcome : Outcome) (h : RootHandle)
    (scalars : Scalars) :
    Rules.boundStep (records t h.spec scalars) (.resolve document token outcome) =
      ruling (gateResolve document token outcome h)
        (readState t (after (.resolve document token outcome) h.spec scalars h.now).1
          (after (.resolve document token outcome) h.spec scalars h.now).2) := by
  have hlookup : (records t h.spec scalars).resolutions[document]? =
      h.spec.resolutions[document]? := rfl
  simp only [Rules.boundStep, gateResolve, after, hlookup]
  cases hr : h.spec.resolutions[document]? with
  | none => rfl
  | some current =>
    by_cases htoken : current.token = token
    · have hfilter : (some current).filter (fun c => decide (c.token = token)) = some current := by
        simp [Option.filter, htoken]
      rw [hfilter]
      refine (if_neg (not_not.mpr htoken)).trans (Eq.trans ?_ (ruling_refuseIf_bind ..).symm)
      split
      case isTrue => rfl
      case isFalse =>
        cases outcome with
        | requested => rfl
        | started | synced | adopted => exact (ruling_refuseIf ..).symm
        | failed reason =>
          refine Eq.trans ?_ (ruling_refuseIf_bind ..).symm
          rw [ruling_refuseIf]
          rfl
    · have hfilter : (some current).filter (fun c => decide (c.token = token)) = none := by
        simp [Option.filter, htoken]
      rw [hfilter]
      simp [htoken, okOr, ruling]
      rfl

/-- **A gate rules as the specification does.** -/
theorem gate_follows (edge : RootEdge) (hstate : h.state = .bound scalars) (hs : Settled scalars) :
    Rules.boundStep (records t h.spec scalars) (readEdge t edge) =
      ruling ((rootEdge edge).gate h)
        (readState t (after edge h.spec scalars h.now).1 (after edge h.spec scalars h.now).2) := by
  cases edge with
  | applied a => exact gateApplied_follows t a hstate hs
  | resolve document token outcome => exact gateResolve_follows t document token outcome h scalars
  | sourceFailed error =>
    have herror : error ≠ "" → (error = scalars.sourceError.getD "" ↔
        h.state.scalars.sourceError = some error) := by
      intro hne
      rw [hstate]
      cases he : scalars.sourceError with
      | none => simp [RootState.scalars, he, hne]
      | some e => simp [RootState.scalars, he, eq_comm]
    simp only [rootEdge, gateSourceFailed, ruling_refuseIf_bind, ruling_refuseIf, readEdge,
      Rules.boundStep]
    split
    case isTrue => rfl
    case isFalse hne =>
      simp only [records, herror hne]
      rfl
  | suspend document => simp only [rootEdge, gateSuspend, ruling_refuseIf]; rfl
  | unsuspend document => simp only [rootEdge, gateUnsuspend, ruling_refuseIf]; rfl
  | requestResolution document act token requestedBy =>
    simp only [rootEdge, gateRequestResolution, ruling_refuseIf_bind, ruling_refuseIf]
    rfl
  | rebind binding =>
    have hbinding : t.read binding = t.read scalars.binding ↔
        h.state.scalars.binding = binding := by
      rw [t.read_injective.eq_iff, hstate]
      exact eq_comm
    simp only [rootEdge, gateRebind, ruling_refuseIf, readEdge, Rules.boundStep, records, hbinding]
    rfl
  | retire => rfl

/-- At a bound root only the gate refuses. -/
theorem verdict_of_bound (hstate : h.state = .bound scalars) (edge : RootEdge) :
    root.verdict h edge =
      ((rootEdge edge).gate h >>= fun _ => .ok ((rootEdge edge).effect h)) := by
  have hfrom : RootLabel.bound ∈ (rootEdge edge).fromLabels := by
    cases edge <;> exact List.mem_singleton_self _
  rw [Machine.verdict, hstate]
  exact refuseIf_bind (not_not.mpr hfrom)

/-- **The machine follows the rules**: an edge is accepted where the specification moves, to the
corresponding root, and refused where it refuses, with the same refusal. -/
theorem decide_follows (hs : Settled r.state.scalars) (edge : RootEdge) (now : Timestamp) :
    (∀ moved, root.decide r edge () now = .ok moved → ∀ version,
      Rules.step (read t r) (readEdge t edge) = .moved (read t (r.commit moved version now))) ∧
    ∀ error, root.decide r edge () now = .error error → ∃ refusal, error = .refused refusal ∧
      Rules.step (read t r) (readEdge t edge) = .refused refusal := by
  constructor
  · intro moved hmoved version
    obtain ⟨scalars, hstate, hgate, hafter⟩ := decide_eq_ok hmoved
    have hfollows := gate_follows t edge (h := r.handle () now) hstate
      (by rw [hstate] at hs; exact hs)
    rw [hgate] at hfollows
    rw [read, hstate]
    refine hfollows.trans (congrArg Rules.Next.moved ?_)
    have hread : readState t (after edge r.spec scalars now).1 (after edge r.spec scalars now).2 =
        readState t (r.commit moved version now).spec (r.commit moved version now).state := by
      rw [← hafter version]
    exact hread
  · intro error herror
    rw [decide_eq] at herror
    cases hstate : r.state with
    | retired scalars =>
      have hended : root.verdict (r.handle () now) edge = .error .ended := by
        rw [Machine.verdict, show (r.handle () now).state = .retired scalars from hstate]
        rfl
      rw [hended] at herror
      refine ⟨.ended, (Except.error.inj herror).symm, ?_⟩
      rw [read, hstate]
      rfl
    | bound scalars =>
      have hgate := verdict_of_bound (h := r.handle () now) hstate edge
      rw [hgate] at herror
      have hfollows := gate_follows t edge (h := r.handle () now) hstate
        (by rw [hstate] at hs; exact hs)
      cases hverdict : (rootEdge edge).gate (r.handle () now) with
      | ok u =>
        rw [hverdict] at herror
        cases herror
      | error refusal =>
        rw [hverdict] at herror hfollows
        refine ⟨refusal, (Except.error.inj herror).symm, ?_⟩
        rw [read, hstate]
        exact hfollows

end Flotilla.Manifest
