import Flotilla.Lifecycle

/-!
# Ensures

An ensure keeps one fulfiller bound to an inbox.  A fulfiller is recorded, then
asked for while no recorded one is live, then bound once it can receive; attempts
that fail end in a hold, which someone with authority resumes.

* `run_tallies` : over every run of the ensure and of the lifecycle machine the
  stored tally is the one the specification counts over the recorded attempts, so
  that holding and giving up are accepted exactly when it calls them exhausted.
* `interleaving_single` : in every interleaving of an ensure with its fulfillers
  at most one recorded fulfiller is live.
-/

namespace Flotilla.Ensure

open Lib Std
open Engine
open Attempt

/-! ### The machine -/

/-- The fulfillers recorded and created, and the current attempt window's tally. -/
structure Work where
  recorded : BTreeSet String
  created : BTreeSet String
  failures : Nat
  lastFailure : Option Failure

inductive EnsureState where
  | unfulfilled (work : Work)
  | fulfilled (work : Work) (bound : String)
  | held (work : Work)
  | retired (work : Work)

inductive EnsureLabel where
  | unfulfilled
  | fulfilled
  | held
  | retired
  deriving DecidableEq, Repr

inductive EnsureDatum where
  | fulfillers (names : BTreeSet String)
  | count (failures : Nat)
  | failure (last : Option Failure)
  | fulfiller (name : String)
  deriving DecidableEq

def Work.data (work : Work) : List (String × EnsureDatum) :=
  [("recorded", .fulfillers work.recorded), ("created", .fulfillers work.created),
    ("failures", .count work.failures), ("last_failure", .failure work.lastFailure)]

namespace EnsureState

/-- The work, whatever the label. -/
def work : EnsureState → Work
  | .unfulfilled work | .fulfilled work _ | .held work | .retired work => work

/-- The bound fulfiller, only while Fulfilled. -/
def bound : EnsureState → Option String
  | .fulfilled _ bound => some bound
  | .unfulfilled _ | .held _ | .retired _ => none

end EnsureState

instance : StateValue EnsureState EnsureLabel EnsureDatum where
  label
    | .unfulfilled _ => .unfulfilled
    | .fulfilled _ _ => .fulfilled
    | .held _ => .held
    | .retired _ => .retired
  data
    | .unfulfilled work | .held work | .retired work => work.data
    | .fulfilled work bound => work.data ++ [("bound", .fulfiller bound)]

/-- The inbox whose drain a bind waits on, and how attempts are judged. -/
structure EnsureSpec where
  inbox : String
  policy : AttemptPolicy

inductive UnbindReason where
  | gone
  | replaced
  deriving DecidableEq, Repr

inductive EnsureEdge where
  | record (fulfiller : String)
  | create (fulfiller : String)
  | bind (fulfiller : String)
  | unbind (reason : UnbindReason) (fulfiller : String)
  | hold
  | resume (by_ authority : String)
  | retire (by_ authority teardown : String)
  | attempted (fulfiller : String) (outcome : Outcome)

/-- A fulfiller's lifecycle phase, as the ensure observes it. -/
inductive FulfillerPhase where
  | requested
  | realised
  | gone
  | gaveUp
  deriving DecidableEq, Repr

structure FulfillerStatus where
  phase : FulfillerPhase
  canReceive : Bool
  deriving DecidableEq, Repr

inductive EnsureRefusal where
  | ended (reason : String)
  | wrongState
  | notRecorded
  | fulfillerLive
  | missingEvidence
  | notExhausted
  | unauthorised
  deriving DecidableEq, Repr

/-- What ensure gates read. -/
structure EnsureWorld where
  fulfiller : String → Option FulfillerStatus
  /-- Whether every observed receipt on an inbox has its delivery. -/
  drain : String → Option Bool
  authority : String → Option Bool
  teardown : String → Option Bool

/-- Requested or Realised. -/
def isLive (status : Option FulfillerStatus) : Bool :=
  status.any fun status => status.phase = .requested ∨ status.phase = .realised

def EnsureWorld.live (world : EnsureWorld) (fulfiller : String) : Bool :=
  isLive (world.fulfiller fulfiller)

abbrev EnsureHandle := Handle EnsureSpec EnsureState EnsureWorld

variable (fulfiller : String) (h : EnsureHandle)

def record : EnsureState :=
  let work := h.state.work
  .unfulfilled { work with recorded := work.recorded.insert fulfiller }

def gateCreate : Except EnsureRefusal Unit := do
  let recorded := h.state.work.recorded
  refuseIf (fulfiller ∉ recorded) .notRecorded
  let anyLive := recorded.toList.any h.world.live
  let absent := (h.world.fulfiller fulfiller).isNone
  refuseIf (anyLive ∨ ¬ absent) .fulfillerLive

def create : EnsureState :=
  let work := h.state.work
  .unfulfilled { work with created := work.created.insert fulfiller }

/-- Realised, and able to receive its inbox's turns. -/
def ready (status : FulfillerStatus) : Bool := status.phase = .realised ∧ status.canReceive

def gateBind : Except EnsureRefusal Unit := do
  refuseIf (fulfiller ∉ h.state.work.recorded) .notRecorded
  refuseIf (¬ ((h.world.fulfiller fulfiller).any ready ∧ h.world.drain h.spec.inbox = some true))
    .missingEvidence

def gateUnbind : Except EnsureRefusal Unit :=
  let isBound := h.state.bound = some fulfiller
  let gone := (h.world.fulfiller fulfiller).any fun status => status.phase = .gone
  refuseIf (¬ (isBound ∧ gone)) .missingEvidence

def attempted (outcome : Outcome) (h : EnsureHandle) : EnsureState :=
  let work := h.state.work
  let left := tally work.failures outcome h.now
  .unfulfilled { work with failures := left.1, lastFailure := left.2 }

/-- The judgement on the state's tally. -/
def Work.retry (work : Work) (policy : AttemptPolicy) : Retry :=
  Attempt.retry policy work.failures work.lastFailure

def gateHold : Except EnsureRefusal Unit :=
  refuseIf (¬ (h.state.work.retry h.spec.policy).exhausted) .notExhausted

def gateResume (authority : String) (h : EnsureHandle) : Except EnsureRefusal Unit :=
  refuseIf (h.world.authority authority ≠ some true) .unauthorised

def resume : EnsureState :=
  .unfulfilled { h.state.work with failures := 0, lastFailure := none }

def gateRetire (authority teardown : String) (h : EnsureHandle) : Except EnsureRefusal Unit := do
  refuseIf (h.world.authority authority ≠ some true) .unauthorised
  refuseIf (h.world.teardown teardown ≠ some true) .missingEvidence

def ensureEdge : EnsureEdge →
    DeclaredEdge EnsureSpec EnsureState EnsureLabel EnsureWorld Empty EnsureRefusal
  | .record fulfiller => {
      fromLabels := [.unfulfilled], toLabels := [.unfulfilled], changes := ["recorded"]
      effect := fun h => (record fulfiller h, []) }
  | .create fulfiller => {
      fromLabels := [.unfulfilled], toLabels := [.unfulfilled], changes := ["created"]
      gate := gateCreate fulfiller, effect := fun h => (create fulfiller h, []) }
  | .bind fulfiller => {
      fromLabels := [.unfulfilled], toLabels := [.fulfilled], changes := ["bound"]
      gate := gateBind fulfiller, effect := fun h => (.fulfilled h.state.work fulfiller, []) }
  | .unbind _ fulfiller => {
      fromLabels := [.fulfilled], toLabels := [.unfulfilled]
      gate := gateUnbind fulfiller, effect := fun h => (.unfulfilled h.state.work, []) }
  | .attempted _ outcome => {
      fromLabels := [.unfulfilled], toLabels := [.unfulfilled]
      changes := ["failures", "last_failure"]
      effect := fun h => (attempted outcome h, []) }
  | .hold => {
      fromLabels := [.unfulfilled], toLabels := [.held]
      gate := gateHold, effect := fun h => (.held h.state.work, []) }
  | .resume _ authority => {
      fromLabels := [.held], toLabels := [.unfulfilled], changes := ["failures", "last_failure"]
      gate := gateResume authority, effect := fun h => (resume h, []) }
  | .retire _ authority teardown => {
      fromLabels := [.unfulfilled, .fulfilled, .held], toLabels := [.retired]
      gate := gateRetire authority teardown, effect := fun h => (.retired h.state.work, []) }

/-- The Ensure machine. -/
def ensure : Machine EnsureSpec EnsureSpec EnsureState EnsureLabel EnsureEdge EnsureWorld Empty
    EnsureRefusal where
  initial := .unfulfilled
  edge := ensureEdge
  ends := [(.retired, "the ensure is retired")]
  ended _ reason := .ended reason
  wrongState _ _ := .wrongState
  admits _ _ spec :=
    .ok (spec, .unfulfilled { recorded := ∅, created := ∅, failures := 0, lastFailure := none })

/-! ### What an accepted edge does -/

variable {e : EnsureEdge} {fulfiller : String} {now : Timestamp} {s : EnsureState}
  {spec : EnsureSpec}

theorem exists_unfulfilled (h : StateValue.label s ∈ [EnsureLabel.unfulfilled]) :
    ∃ work, s = .unfulfilled work := by
  cases s with
  | unfulfilled work => exact ⟨work, rfl⟩
  | fulfilled | held | retired => cases List.mem_singleton.mp h

theorem exists_fulfilled (h : StateValue.label s ∈ [EnsureLabel.fulfilled]) :
    ∃ work bound, s = .fulfilled work bound := by
  cases s with
  | fulfilled work bound => exact ⟨work, bound, rfl⟩
  | unfulfilled | held | retired => cases List.mem_singleton.mp h

theorem exists_held (h : StateValue.label s ∈ [EnsureLabel.held]) : ∃ work, s = .held work := by
  cases s with
  | held work => exact ⟨work, rfl⟩
  | unfulfilled | fulfilled | retired => cases List.mem_singleton.mp h

theorem open_iff : StateValue.label s ≠ EnsureLabel.retired ↔
    StateValue.label s ∈ [EnsureLabel.unfulfilled, EnsureLabel.fulfilled, EnsureLabel.held] := by
  cases s <;> simp [StateValue.label]

theorem endReason_of_open (h : StateValue.label s ≠ EnsureLabel.retired) :
    ensure.endReason (StateValue.label s) = none := by
  cases s with
  | unfulfilled | fulfilled | held => rfl
  | retired => exact absurd rfl h

theorem ensure_sound : ensure.Sound where
  writes h e moved _ write := write.elim
  target h e moved hv := by
    obtain ⟨-, -, -, rfl⟩ := Machine.verdict_eq_ok hv
    cases e <;> exact List.mem_singleton.mpr rfl
  changes h e moved hv := by
    obtain ⟨-, hfrom, -, rfl⟩ := Machine.verdict_eq_ok hv
    intro datum hmem hnew
    have hdata : ∀ d ∈ h.state.work.data, d ∈ StateValue.data h.state := by
      intro d hd
      cases hs : h.state with
      | fulfilled work bound => rw [hs] at hd; exact List.mem_append_left _ hd
      | unfulfilled | held | retired => rw [hs] at hd; exact hd
    have hold : datum ∉ h.state.work.data := fun hd => hnew (hdata datum hd)
    cases e <;> simp only [ensure, ensureEdge, StateValue.data, record, create, attempted, resume,
      Work.data, List.mem_append, List.mem_cons, List.not_mem_nil, or_false] at hmem hold ⊢ <;>
      aesop

/-- What an accepted edge needs and makes of a state. -/
inductive Moves (spec : EnsureSpec) (world : EnsureWorld) (now : Timestamp) :
    EnsureState → EnsureEdge → EnsureState → Prop where
  | record {w fulfiller} :
      Moves spec world now (.unfulfilled w) (.record fulfiller)
        (.unfulfilled { w with recorded := w.recorded.insert fulfiller })
  | create {w fulfiller} (hrecorded : fulfiller ∈ w.recorded)
      (hlive : ∀ f ∈ w.recorded, world.live f = false)
      (habsent : world.fulfiller fulfiller = none) :
      Moves spec world now (.unfulfilled w) (.create fulfiller)
        (.unfulfilled { w with created := w.created.insert fulfiller })
  | bind {w fulfiller} (hrecorded : fulfiller ∈ w.recorded)
      (hready : (world.fulfiller fulfiller).any ready = true)
      (hdrain : world.drain spec.inbox = some true) :
      Moves spec world now (.unfulfilled w) (.bind fulfiller) (.fulfilled w fulfiller)
  | unbind {w reason fulfiller}
      (hgone : (world.fulfiller fulfiller).any (fun status => status.phase = .gone) = true) :
      Moves spec world now (.fulfilled w fulfiller) (.unbind reason fulfiller) (.unfulfilled w)
  | attempted {w fulfiller outcome} :
      Moves spec world now (.unfulfilled w) (.attempted fulfiller outcome)
        (.unfulfilled { w with
          failures := (tally w.failures outcome now).1
          lastFailure := (tally w.failures outcome now).2 })
  | hold {w} (hexhausted : (w.retry spec.policy).exhausted = true) :
      Moves spec world now (.unfulfilled w) .hold (.held w)
  | resume {w by_ authority} (hauthority : world.authority authority = some true) :
      Moves spec world now (.held w) (.resume by_ authority)
        (.unfulfilled { w with failures := 0, lastFailure := none })
  | retire {s by_ authority teardown} (hopen : StateValue.label s ≠ EnsureLabel.retired)
      (hauthority : world.authority authority = some true)
      (hteardown : world.teardown teardown = some true) :
      Moves spec world now s (.retire by_ authority teardown) (.retired s.work)

theorem gateCreate_eq_ok {h : EnsureHandle} :
    gateCreate fulfiller h = .ok () ↔ fulfiller ∈ h.state.work.recorded ∧
      (∀ f ∈ h.state.work.recorded, h.world.live f = false) ∧
      h.world.fulfiller fulfiller = none := by
  constructor
  · intro hgate
    obtain ⟨hrecorded, hgate⟩ := of_refuseIf hgate
    have hfree := refuseIf_eq_ok.mp hgate
    simp only [not_or, not_not, List.any_eq_true, ExtTreeSet.mem_toList, not_exists, not_and,
      Bool.not_eq_true, Option.isNone_iff_eq_none] at hfree
    exact ⟨not_not.mp hrecorded, hfree⟩
  · rintro ⟨hrecorded, hfree⟩
    refine (refuseIf_bind (not_not.mpr hrecorded)).trans (refuseIf_eq_ok.mpr ?_)
    simpa only [not_or, not_not, List.any_eq_true, ExtTreeSet.mem_toList, not_exists, not_and,
      Bool.not_eq_true, Option.isNone_iff_eq_none] using hfree

variable (r : Resource EnsureSpec EnsureState)

/-- **The home accepts an edge exactly as `Moves` says.** -/
theorem decide_iff (e : EnsureEdge) (world : EnsureWorld) (now : Timestamp) (next : EnsureState) :
    ensure.decide r e world now = .ok (next, []) ↔ Moves r.spec world now r.state e next := by
  rw [ensure_sound.decide_iff]
  obtain ⟨name, spec, state, since, version⟩ := r
  constructor
  · rintro ⟨hend, hfrom, hgate, hmoved⟩
    cases e with
    | record fulfiller =>
      obtain ⟨w, rfl⟩ := exists_unfulfilled hfrom
      cases hmoved
      exact .record
    | create fulfiller =>
      obtain ⟨w, rfl⟩ := exists_unfulfilled hfrom
      cases hmoved
      obtain ⟨hrecorded, hlive, habsent⟩ := gateCreate_eq_ok.mp hgate
      exact .create hrecorded hlive habsent
    | bind fulfiller =>
      obtain ⟨w, rfl⟩ := exists_unfulfilled hfrom
      cases hmoved
      obtain ⟨hrecorded, hgate⟩ := of_refuseIf hgate
      obtain ⟨hready, hdrain⟩ := not_not.mp (refuseIf_eq_ok.mp hgate)
      exact .bind (not_not.mp hrecorded) hready hdrain
    | unbind reason fulfiller =>
      obtain ⟨w, bound, rfl⟩ := exists_fulfilled hfrom
      cases hmoved
      obtain ⟨hbound, hgone⟩ := not_not.mp (refuseIf_eq_ok.mp hgate)
      cases hbound
      exact .unbind hgone
    | attempted fulfiller outcome =>
      obtain ⟨w, rfl⟩ := exists_unfulfilled hfrom
      cases hmoved
      exact .attempted
    | hold =>
      obtain ⟨w, rfl⟩ := exists_unfulfilled hfrom
      cases hmoved
      exact .hold (not_not.mp (refuseIf_eq_ok.mp hgate))
    | resume by_ authority =>
      obtain ⟨w, rfl⟩ := exists_held hfrom
      cases hmoved
      exact .resume (not_not.mp (refuseIf_eq_ok.mp hgate))
    | retire by_ authority teardown =>
      cases hmoved
      obtain ⟨hauthority, hgate⟩ := of_refuseIf hgate
      exact .retire (open_iff.mpr hfrom) (not_not.mp hauthority)
        (not_not.mp (refuseIf_eq_ok.mp hgate))
  · intro h
    cases h with
    | record | attempted => exact ⟨rfl, List.mem_singleton_self _, rfl, rfl⟩
    | create hrecorded hlive habsent =>
      exact ⟨rfl, List.mem_singleton_self _, gateCreate_eq_ok.mpr ⟨hrecorded, hlive, habsent⟩, rfl⟩
    | bind hrecorded hready hdrain =>
      exact ⟨rfl, List.mem_singleton_self _, (refuseIf_bind (not_not.mpr hrecorded)).trans
        (refuseIf_eq_ok.mpr (not_not.mpr ⟨hready, hdrain⟩)), rfl⟩
    | unbind hgone =>
      exact ⟨rfl, List.mem_singleton_self _, refuseIf_eq_ok.mpr (not_not.mpr ⟨rfl, hgone⟩), rfl⟩
    | hold hexhausted =>
      exact ⟨rfl, List.mem_singleton_self _, refuseIf_eq_ok.mpr (not_not.mpr hexhausted), rfl⟩
    | resume hauthority =>
      exact ⟨rfl, List.mem_singleton_self _, refuseIf_eq_ok.mpr (not_not.mpr hauthority), rfl⟩
    | retire hopen hauthority hteardown =>
      exact ⟨endReason_of_open hopen, open_iff.mp hopen,
        (refuseIf_bind (not_not.mpr hauthority)).trans
          (refuseIf_eq_ok.mpr (not_not.mpr hteardown)), rfl⟩

/-! ### The tally over a run -/

/-- The attempts that accepted edges record, and the window that the last resume opened. -/
def history (edges : List (EnsureEdge × Timestamp)) : History :=
  edges.foldl (fun h edge => match edge.1 with
    | .attempted _ outcome => h.attempt outcome edge.2
    | .resume _ _ => h.resume
    | _ => h) {}

theorem history_snoc (edges : List (EnsureEdge × Timestamp)) :
    history (edges ++ [(e, now)]) = match e with
      | .attempted _ outcome => (history edges).attempt outcome now
      | .resume _ _ => (history edges).resume
      | _ => history edges := by
  simp [history]

theorem run_counted {start r : Resource EnsureSpec EnsureState}
    {edges : List (EnsureEdge × Timestamp)} (hstart : Admitted ensure spec start)
    (run : TimedRun ensure start edges r) :
    r.spec = spec ∧ Tallies r.state.work.failures r.state.work.lastFailure (history edges) := by
  induction run with
  | nil =>
    obtain ⟨name, world, now, version, spec, state, hadmits, -⟩ := hstart
    cases hadmits
    exact ⟨rfl, .start⟩
  | @snoc edges e r moved _ world now version h ih =>
    obtain ⟨hspec, ih⟩ := ih
    obtain ⟨next, writes⟩ := moved
    cases writes with
    | cons write => exact write.elim
    | nil =>
      refine ⟨hspec, ?_⟩
      rw [history_snoc]
      have hmoves := (decide_iff r e world now next).mp h
      generalize r.state = s at hmoves ih
      cases hmoves with
      | attempted => exact ih.attempt _ now
      | resume => exact .resume _
      | record | create | bind | unbind | hold | retire => exact ih

/-- Holding is accepted while Unfulfilled with an exhausted tally. -/
theorem accepts_hold_iff (world : EnsureWorld) :
    (∃ moved, ensure.decide r .hold world now = .ok moved) ↔
      StateValue.label r.state = EnsureLabel.unfulfilled ∧
        (r.state.work.retry r.spec.policy).exhausted = true := by
  constructor
  · rintro ⟨moved, h⟩
    obtain ⟨-, hfrom, hgate, -⟩ := (ensure_sound.decide_iff r .hold world now moved).mp h
    exact ⟨List.mem_singleton.mp hfrom, not_not.mp (refuseIf_eq_ok.mp hgate)⟩
  · rintro ⟨hlabel, hexhausted⟩
    refine ⟨_, (decide_iff r .hold world now (.held r.state.work)).mpr ?_⟩
    obtain ⟨w, hw⟩ := exists_unfulfilled (List.mem_singleton.mpr hlabel)
    rw [hw] at hexhausted ⊢
    exact .hold hexhausted

/-- **The stored tallies are those of the specification's attempt histories, so that an ensure is
held and a request gives up exactly when the specification says.** -/
theorem run_tallies (policy : AttemptPolicy) :
    (∀ (spec : EnsureSpec) (start r : Resource EnsureSpec EnsureState)
      (edges : List (EnsureEdge × Timestamp)), spec.policy = policy → Admitted ensure spec start →
      TimedRun ensure start edges r →
        r.state.work.failures = min (history edges).failureCount u32Max ∧
        r.state.work.lastFailure = (history edges).lastFailure ∧
        ∀ world now, (∃ moved, ensure.decide r .hold world now = .ok moved) ↔
          StateValue.label r.state = EnsureLabel.unfulfilled ∧
            (history edges).exhausted (max 1 policy.maxFailures.val) = true) ∧
    (∀ (Request : Type) (request : Request) (start r : Resource Request Lifecycle.LifecycleState)
      (edges : List (Lifecycle.LifecycleEdge × Timestamp)),
      Admitted (Lifecycle.lifecycle policy) request start →
      TimedRun (Lifecycle.lifecycle policy) start edges r →
        (∀ failures last, r.state = .requested failures last →
          failures = min (Lifecycle.history edges).failureCount u32Max ∧
          last = (Lifecycle.history edges).lastFailure) ∧
        ∀ cause world now,
          (∃ moved, (Lifecycle.lifecycle policy).decide r (.giveUp cause) world now = .ok moved) ↔
            StateValue.label r.state = Lifecycle.LifecycleLabel.requested ∧
              (Lifecycle.history edges).exhausted (max 1 policy.maxFailures.val) = true ∧
              (Lifecycle.history edges).lastCauseIs cause = true) := by
  have hlimit : policy.limit = max 1 policy.maxFailures.val := Nat.max_comm _ _
  refine ⟨?_, ?_⟩
  · intro spec start r edges hpolicy hstart run
    obtain ⟨hspec, ht⟩ := run_counted hstart run
    refine ⟨ht.failures, ht.last, fun world now => ?_⟩
    rw [accepts_hold_iff, hspec, hpolicy, ← hlimit]
    exact and_congr_right fun _ => ht.exhausted_iff policy
  · intro Request request start r edges hstart run
    have hcounted := Lifecycle.run_counted hstart run
    refine ⟨fun failures last hstate => ?_, fun cause world now => ?_⟩
    · rw [hstate] at hcounted
      exact ⟨Tallies.failures hcounted, Tallies.last hcounted⟩
    · rw [Lifecycle.accepts_giveUp_iff, ← hlimit]
      refine ⟨?_, ?_⟩
      · rintro ⟨failures, last, hstate, hexhausted, hcause⟩
        rw [hstate] at hcounted ⊢
        exact ⟨rfl, (Tallies.exhausted_iff hcounted policy).mp hexhausted,
          (Tallies.lastCause_iff hcounted policy cause).mp hcause⟩
      · rintro ⟨hlabel, hexhausted, hcause⟩
        obtain ⟨failures, last, hstate⟩ :=
          Lifecycle.exists_requested (List.mem_singleton.mpr hlabel)
        rw [hstate] at hcounted
        exact ⟨failures, last, hstate, (Tallies.exhausted_iff hcounted policy).mpr hexhausted,
          (Tallies.lastCause_iff hcounted policy cause).mpr hcause⟩

section Fixtures

/-- One failure exhausts the window. -/
def once : AttemptPolicy := 
  { maxFailures := ⟨1, one_lt_u32Count⟩, base := 0, factor := ⟨1, one_lt_u32Count⟩, cap := 0 }

def mailbox : EnsureSpec := { inbox := "crew", policy := once }

def quiet : EnsureWorld := ⟨fun _ => none, fun _ => none, fun _ => none, fun _ => none⟩

def unseen : Lifecycle.LifecycleWorld := ⟨fun _ => none, fun _ => none, fun _ => none⟩

def noBoot : Cause := { category := .external, detail := "no boot" }

def newWork : Work := { recorded := ∅, created := ∅, failures := 0, lastFailure := none }

def newEnsure : Resource EnsureSpec EnsureState :=
  { name := "inbox", spec := mailbox, state := .unfulfilled newWork, since := 0, version := 1 }

theorem admitted_newEnsure : Admitted ensure mailbox newEnsure :=
  ⟨"inbox", quiet, 0, 1, mailbox, EnsureState.unfulfilled newWork, rfl, rfl⟩

def newVessel : Resource String Lifecycle.LifecycleState :=
  { name := "vessel", spec := "berth", state := .requested 0 none, since := 0, version := 1 }

theorem run_tallies_once :
    (∃ r, TimedRun ensure newEnsure [(.attempted "a" (.failed noBoot true), 5)] r ∧
      ∃ moved, ensure.decide r .hold quiet 6 = .ok moved) ∧
    ∃ r, TimedRun (Lifecycle.lifecycle once) newVessel [(.attempted (.failed noBoot true), 5)] r ∧
      ∃ moved, (Lifecycle.lifecycle once).decide r (.giveUp noBoot) unseen 6 = .ok moved := by
  have hensure : TimedRun ensure newEnsure [(.attempted "a" (.failed noBoot true), 5)] _ :=
    .snoc .nil quiet 5 2 ((decide_iff newEnsure _ quiet 5 _).mpr .attempted)
  have hvessel : TimedRun (Lifecycle.lifecycle once) newVessel
      [(.attempted (.failed noBoot true), 5)] _ :=
    .snoc .nil unseen 5 2 ((Lifecycle.decide_iff newVessel _ _ 5 _).mpr .attempted)
  refine ⟨⟨_, hensure, ?_⟩, _, hvessel, ?_⟩
  · exact (((run_tallies once).1 mailbox newEnsure _ _ rfl admitted_newEnsure hensure).2.2
      quiet 6).mpr ⟨rfl, by decide⟩
  · have hstart : Admitted (Lifecycle.lifecycle once) "berth" newVessel :=
      ⟨"vessel", unseen, 0, 1, "berth", Lifecycle.LifecycleState.requested 0 none, rfl, rfl⟩
    exact (((run_tallies once).2 String "berth" newVessel _ _ hstart hvessel).2
      noBoot unseen 6).mpr ⟨rfl, by decide, by decide⟩

end Fixtures

/-! ### An ensure among its fulfillers -/

/-- An ensure and what is observed of its fulfillers, in any interleaving of the two.
Observations are exact: nothing is live before the ensure is there, and a fulfiller becomes live
only with its accepted create edge.  What else is observed may change at every step. -/
inductive Interleaving (spec : EnsureSpec) :
    Resource EnsureSpec EnsureState → EnsureWorld → Prop where
  | admitted {start} (hstart : Admitted ensure spec start) (world : EnsureWorld)
      (hnone : ∀ f, world.live f = false) : Interleaving spec start world
  | edge {r world moved} (before : Interleaving spec r world) (edge : EnsureEdge)
      (now : Timestamp) (version : Nat) (h : ensure.decide r edge world now = .ok moved)
      (world' : EnsureWorld)
      (hlive : ∀ f, world'.live f = true → world.live f = true ∨ edge = .create f) :
      Interleaving spec (r.commit moved version now) world'
  | fulfillers {r world} (before : Interleaving spec r world) (world' : EnsureWorld)
      (hlive : ∀ f, world'.live f = true → world.live f = true) : Interleaving spec r world'

/-- A live fulfiller was created, a created one recorded, and no two are live. -/
structure Single (spec : EnsureSpec) (r : Resource EnsureSpec EnsureState) (world : EnsureWorld) :
    Prop where
  spec_eq : r.spec = spec
  created : ∀ f, world.live f = true → f ∈ r.state.work.created
  recorded : ∀ f ∈ r.state.work.created, f ∈ r.state.work.recorded
  unique : ∀ f g, world.live f = true → world.live g = true → f = g
  bound : ∀ f, r.state.bound = some f → f ∈ r.state.work.recorded
  held : StateValue.label r.state = EnsureLabel.held →
    (r.state.work.retry spec.policy).exhausted = true

theorem Single.mono {r : Resource EnsureSpec EnsureState} {world world' : EnsureWorld}
    (h : Single spec r world) (hlive : ∀ f, world'.live f = true → world.live f = true) :
    Single spec r world' :=
  { h with
    created := fun f hf => h.created f (hlive f hf)
    unique := fun f g hf hg => h.unique f g (hlive f hf) (hlive g hg) }

/-- Only a create edge lets something new be live. -/
theorem live_of_edge {world world' : EnsureWorld} (hne : ∀ f, e ≠ .create f)
    (hlive : ∀ f, world'.live f = true → world.live f = true ∨ e = .create f) (f : String)
    (hf : world'.live f = true) : world.live f = true :=
  (hlive f hf).resolve_right (hne f)

theorem Single.step {r : Resource EnsureSpec EnsureState} {world world' : EnsureWorld}
    {next : EnsureState} (h : Single spec r world) (version : Nat)
    (hmoves : Moves spec world now r.state e next)
    (hlive : ∀ f, world'.live f = true → world.live f = true ∨ e = .create f) :
    Single spec (r.commit (next, ([] : List Empty)) version now) world' := by
  obtain ⟨name, spec', s, since, version'⟩ := r
  cases hmoves with
  | create hrecorded hidle habsent =>
    -- every live fulfiller was recorded, and none recorded was live
    rename_i w fulfiller
    have honly : ∀ f, world'.live f = true → f = fulfiller := by
      intro f hf
      rcases hlive f hf with hf | hf
      · have hnot := hidle f (h.recorded f (h.created f hf))
        rw [hf] at hnot
        cases hnot
      · cases hf
        rfl
    refine ⟨h.spec_eq, ?_, ?_, ?_, h.bound, nofun⟩
    · intro f hf
      exact ExtTreeSet.mem_insert.mpr (.inl (by rw [honly f hf]; exact Std.compare_self))
    · intro f hf
      rcases ExtTreeSet.mem_insert.mp hf with hf | hf
      · exact Std.compare_eq_iff_eq.mp hf ▸ hrecorded
      · exact h.recorded f hf
    · intro f g hf hg
      rw [honly f hf, honly g hg]
  | record =>
    have h' := h.mono (live_of_edge (by simp) hlive)
    exact ⟨h.spec_eq, h'.created, fun f hf => ExtTreeSet.mem_insert.mpr (.inr (h.recorded f hf)),
      h'.unique, nofun, nofun⟩
  | bind hrecorded =>
    have h' := h.mono (live_of_edge (by simp) hlive)
    refine ⟨h.spec_eq, h'.created, h.recorded, h'.unique, ?_, nofun⟩
    intro f hf
    cases hf
    exact hrecorded
  | hold hexhausted =>
    have h' := h.mono (live_of_edge (by simp) hlive)
    exact ⟨h.spec_eq, h'.created, h.recorded, h'.unique, nofun, fun _ => hexhausted⟩
  | unbind | attempted | resume | retire =>
    have h' := h.mono (live_of_edge (by simp) hlive)
    exact ⟨h.spec_eq, h'.created, h.recorded, h'.unique, nofun, nofun⟩

theorem Interleaving.single {r : Resource EnsureSpec EnsureState} {world : EnsureWorld}
    (run : Interleaving spec r world) : Single spec r world := by
  induction run with
  | admitted hstart world hnone =>
    obtain ⟨name, _, now, version, spec, state, hadmits, -⟩ := hstart
    cases hadmits
    have hnone' : ∀ f, world.live f ≠ true := fun f => by simp [hnone f]
    exact ⟨rfl, fun f hf => absurd hf (hnone' f),
      fun f hf => absurd hf ExtTreeSet.not_mem_empty, fun f _ hf => absurd hf (hnone' f),
      nofun, nofun⟩
  | @edge r world moved _ e now version h world' hlive ih =>
    obtain ⟨next, writes⟩ := moved
    cases writes with
    | cons write => exact write.elim
    | nil =>
      have hmoves := (decide_iff r e world now next).mp h
      rw [ih.spec_eq] at hmoves
      exact ih.step version hmoves hlive
  | fulfillers _ world' hlive ih => exact ih.mono hlive

/-- **At most one recorded fulfiller is live; what is created or bound was recorded; a hold rests
on an exhausted tally.** -/
theorem interleaving_single {spec : EnsureSpec} {r : Resource EnsureSpec EnsureState}
    {world : EnsureWorld} (run : Interleaving spec r world) :
    (∀ f ∈ r.state.work.recorded, ∀ g ∈ r.state.work.recorded,
      world.live f = true → world.live g = true → f = g) ∧
    (∀ f ∈ r.state.work.created, f ∈ r.state.work.recorded) ∧
    (∀ f, r.state.bound = some f → f ∈ r.state.work.recorded) ∧
    (StateValue.label r.state = EnsureLabel.held →
      (r.state.work.retry spec.policy).exhausted = true) := by
  have h := run.single
  exact ⟨fun f _ g _ hf hg => h.unique f g hf hg, h.recorded, h.bound, h.held⟩

/-! ### Fulfillers that are lifecycle resources -/

/-- The phase an ensure observes of a lifecycle. -/
def phaseOf : Lifecycle.LifecycleState → FulfillerPhase
  | .requested _ _ => .requested
  | .realised _ => .realised
  | .gone _ => .gone
  | .gaveUp _ => .gaveUp

/-- The world in which `fulfiller` is observed in the state `s`. -/
def EnsureWorld.observe (world : EnsureWorld) (fulfiller : String) (s : Lifecycle.LifecycleState)
    (canReceive : Bool) : EnsureWorld :=
  { world with
    fulfiller := Function.update world.fulfiller fulfiller (some ⟨phaseOf s, canReceive⟩) }

theorem live_observe {world : EnsureWorld} {s : Lifecycle.LifecycleState} {canReceive : Bool}
    (f : String) :
    (world.observe fulfiller s canReceive).live f =
      if f = fulfiller then s.live else world.live f := by
  by_cases hf : f = fulfiller
  · subst hf
    cases s <;> simp [EnsureWorld.live, EnsureWorld.observe, isLive, phaseOf,
      Lifecycle.LifecycleState.live]
  · simp [EnsureWorld.live, EnsureWorld.observe, hf]

/-- A fulfiller's own lifecycle edges are steps of the interleaving. -/
theorem Interleaving.lifecycle {r : Resource EnsureSpec EnsureState} {world : EnsureWorld}
    {s s' : Lifecycle.LifecycleState} {e : Lifecycle.LifecycleEdge} {policy : AttemptPolicy}
    {seen : Lifecycle.LifecycleWorld} (run : Interleaving spec r world)
    (hs : (world.fulfiller fulfiller).map FulfillerStatus.phase = some (phaseOf s))
    (h : Lifecycle.Moves policy seen now s e s') (canReceive : Bool) :
    Interleaving spec r (world.observe fulfiller s' canReceive) := by
  refine run.fulfillers _ fun f hf => ?_
  rw [live_observe] at hf
  split_ifs at hf with heq
  · subst heq
    obtain ⟨status, hstatus, hphase⟩ := Option.map_eq_some_iff.mp hs
    have hlive := Lifecycle.live_of_moves h
    rw [EnsureWorld.live, hstatus]
    cases s with
    | requested | realised => simp [isLive, hphase, phaseOf]
    | gone | gaveUp => cases hlive
  · exact hf

/-- `a` is recorded, asked for and then realised. -/
theorem interleaving_single_realised :
    ∃ r world, Interleaving mailbox r world ∧ world.live "a" = true ∧
      "a" ∈ r.state.work.recorded ∧
      ∀ g ∈ r.state.work.recorded, world.live g = true → "a" = g := by
  have hquiet : ∀ f, quiet.live f = false := fun _ => rfl
  let wanted : Work := { newWork with recorded := newWork.recorded.insert "a" }
  have hrecord : Moves mailbox quiet 1 (.unfulfilled newWork) (.record "a")
    (.unfulfilled wanted) := .record
  have hrecorded : "a" ∈ wanted.recorded := ExtTreeSet.mem_insert_self
  have hcreate : Moves mailbox quiet 2 (.unfulfilled wanted) (.create "a") _ :=
    .create hrecorded (fun f _ => hquiet f) rfl
  have hlive : ∀ f, (quiet.observe "a" (.requested 0 none) false).live f = true →
      quiet.live f = true ∨ EnsureEdge.create "a" = .create f := by
    intro f hf
    rw [live_observe] at hf
    split_ifs at hf with heq
    · exact .inr (by rw [heq])
    · exact .inl hf
  have hrealise : Lifecycle.Moves once { unseen with realisation := fun _ => some "crew-1" } 3
      (.requested 0 none) (.realise "crew-1" "a") (.realised "crew-1") := .realise rfl
  have run₀ : Interleaving mailbox newEnsure quiet := .admitted admitted_newEnsure quiet hquiet
  have run₁ := run₀.edge _ 1 2 ((decide_iff newEnsure _ quiet 1 _).mpr hrecord) quiet
    fun f hf => .inl hf
  have run₂ := run₁.edge _ 2 3 ((decide_iff _ _ quiet 2 _).mpr hcreate) _ hlive
  have hseen : ((quiet.observe "a" (.requested 0 none) false).fulfiller "a").map
      FulfillerStatus.phase = some .requested := by simp [EnsureWorld.observe, phaseOf]
  have run₃ := run₂.lifecycle hseen hrealise true
  have ha : ((quiet.observe "a" (.requested 0 none) false).observe "a" (.realised "crew-1")
      true).live "a" = true := by rw [live_observe, if_pos rfl]; rfl
  exact ⟨_, _, run₃, ha, hrecorded, fun g hg hlive =>
    (interleaving_single run₃).1 "a" hrecorded g hg ha hlive⟩

end Flotilla.Ensure
