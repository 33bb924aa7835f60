import Flotilla.Attempt

/-!
# The shared lifecycle

A thing is requested, realised once its home observes it under the expected
identity, and gone once released or observed absent.  Each try at realising it is
an attempt; a request gives up when its attempts are spent.  The machine is the
same for every kind: `lifecycle` takes the kind's request and retry policy.
-/

namespace Flotilla.Lifecycle

open Lib
open Engine
open Attempt

/-! ### The machine -/

inductive Ending where
  | released
  | lost
  | failed (reason : String)
  deriving DecidableEq, Repr

/-- The observation that ended a realised lifecycle. -/
inductive VanishCause where
  | lost
  | failed (reason : String)
  deriving DecidableEq, Repr

def VanishCause.ending : VanishCause → Ending
  | .lost => .lost
  | .failed reason => .failed reason

inductive LifecycleState where
  | requested (failures : Nat) (lastFailure : Option Failure)
  | realised (identity : String)
  | gone (ending : Ending)
  | gaveUp (cause : Cause)
  deriving DecidableEq

inductive LifecycleLabel where
  | requested
  | realised
  | gone
  | gaveUp
  deriving DecidableEq, Repr

inductive LifecycleDatum where
  | count (failures : Nat)
  | failure (last : Option Failure)
  | text (identity : String)
  | ending (ending : Ending)
  | cause (cause : Cause)
  deriving DecidableEq

instance : StateValue LifecycleState LifecycleLabel LifecycleDatum where
  label
    | .requested _ _ => .requested
    | .realised _ => .realised
    | .gone _ => .gone
    | .gaveUp _ => .gaveUp
  data
    | .requested failures last => [("failures", .count failures), ("last_failure", .failure last)]
    | .realised identity => [("identity", .text identity)]
    | .gone ending => [("ending", .ending ending)]
    | .gaveUp cause => [("cause", .cause cause)]

/-- Requested or Realised. -/
def LifecycleState.live : LifecycleState → Bool
  | .requested _ _ | .realised _ => true
  | .gone _ | .gaveUp _ => false

inductive LifecycleEdge where
  | realise (identity observed : String)
  | release (teardown : String)
  | vanish (cause : VanishCause) (observed : String)
  | giveUp (cause : Cause)
  | attempted (outcome : Outcome)

inductive LifecycleRefusal where
  | ended (reason : String)
  | wrongState
  | missingEvidence
  deriving DecidableEq, Repr

/-- What lifecycle gates read. -/
structure LifecycleWorld where
  /-- The identity a thing is observed under. -/
  realisation : String → Option String
  teardown : String → Option Bool
  absence : String → Option Bool

section Machine

variable {Request : Type} (policy : AttemptPolicy)

abbrev LifecycleHandle (Request : Type) := Handle Request LifecycleState LifecycleWorld

def gateRealise (identity observed : String) (h : LifecycleHandle Request) :
    Except LifecycleRefusal Unit :=
  refuseIf (h.world.realisation observed ≠ some identity) .missingEvidence

def gateRelease (teardown : String) (h : LifecycleHandle Request) : Except LifecycleRefusal Unit :=
  refuseIf (h.world.teardown teardown ≠ some true) .missingEvidence

def gateVanish (observed : String) (h : LifecycleHandle Request) : Except LifecycleRefusal Unit :=
  refuseIf (h.world.absence observed ≠ some true) .missingEvidence

/-- The tally that a Requested state holds. -/
def tallyOf : LifecycleState → Nat × Option Failure
  | .requested failures last => (failures, last)
  | _ => (0, none)

def gateGiveUp (cause : Cause) (h : LifecycleHandle Request) : Except LifecycleRefusal Unit :=
  let judged := retry policy (tallyOf h.state).1 (tallyOf h.state).2
  refuseIf (¬ (judged.exhausted ∧ judged.lastCause = some cause)) .missingEvidence

def attempted (outcome : Outcome) (h : LifecycleHandle Request) : LifecycleState :=
  let left := tally (tallyOf h.state).1 outcome h.now
  .requested left.1 left.2

def lifecycleEdge : LifecycleEdge →
    DeclaredEdge Request LifecycleState LifecycleLabel LifecycleWorld Empty LifecycleRefusal
  | .realise identity observed => {
      fromLabels := [.requested], toLabels := [.realised], changes := ["identity"]
      gate := gateRealise identity observed, effect := fun _ => (.realised identity, []) }
  | .release teardown => {
      fromLabels := [.requested, .realised], toLabels := [.gone], changes := ["ending"]
      gate := gateRelease teardown, effect := fun _ => (.gone .released, []) }
  | .vanish cause observed => {
      fromLabels := [.realised], toLabels := [.gone], changes := ["ending"]
      gate := gateVanish observed, effect := fun _ => (.gone cause.ending, []) }
  | .attempted outcome => {
      fromLabels := [.requested], toLabels := [.requested], changes := ["failures", "last_failure"]
      effect := fun h => (attempted outcome h, []) }
  | .giveUp cause => {
      fromLabels := [.requested], toLabels := [.gaveUp], changes := ["cause"]
      gate := gateGiveUp policy cause, effect := fun _ => (.gaveUp cause, []) }

/-- The lifecycle machine of a kind with the given policy. -/
def lifecycle : Machine Request Request LifecycleState LifecycleLabel LifecycleEdge LifecycleWorld
    Empty LifecycleRefusal where
  initial := .requested
  edge := lifecycleEdge policy
  ends := [(.gone, "the thing is gone"), (.gaveUp, "the request gave up")]
  ended _ reason := .ended reason
  wrongState _ _ := .wrongState
  admits _ _ request := .ok (request, .requested 0 none)

variable {policy}

theorem lifecycle_sound : (@lifecycle Request policy).Sound where
  writes h e moved _ write := write.elim
  target h e moved hv := by
    obtain ⟨-, -, -, rfl⟩ := Machine.verdict_eq_ok hv
    cases e <;> exact List.mem_singleton.mpr rfl
  changes h e moved hv := by
    obtain ⟨-, -, -, rfl⟩ := Machine.verdict_eq_ok hv
    intro datum hmem _
    cases e <;> simp_all [lifecycle, lifecycleEdge, StateValue.data, attempted]
    rcases hmem with rfl | rfl <;> simp

/-- What an accepted edge needs and makes of a state. -/
inductive Moves (policy : AttemptPolicy) (world : LifecycleWorld) (now : Timestamp) :
    LifecycleState → LifecycleEdge → LifecycleState → Prop where
  | realise {failures last identity observed}
      (h : world.realisation observed = some identity) :
      Moves policy world now (.requested failures last) (.realise identity observed)
        (.realised identity)
  | release {s teardown} (hlive : s.live = true) (h : world.teardown teardown = some true) :
      Moves policy world now s (.release teardown) (.gone .released)
  | vanish {identity cause observed} (h : world.absence observed = some true) :
      Moves policy world now (.realised identity) (.vanish cause observed) (.gone cause.ending)
  | attempted {failures last outcome} :
      Moves policy world now (.requested failures last) (.attempted outcome)
        (.requested (tally failures outcome now).1 (tally failures outcome now).2)
  | giveUp {failures last cause} (hexhausted : (retry policy failures last).exhausted = true)
      (hcause : (retry policy failures last).lastCause = some cause) :
      Moves policy world now (.requested failures last) (.giveUp cause) (.gaveUp cause)

theorem exists_requested {s : LifecycleState}
    (h : StateValue.label s ∈ [LifecycleLabel.requested]) :
    ∃ failures last, s = .requested failures last := by
  cases s with
  | requested failures last => exact ⟨failures, last, rfl⟩
  | realised | gone | gaveUp => cases List.mem_singleton.mp h

theorem exists_realised {s : LifecycleState}
    (h : StateValue.label s ∈ [LifecycleLabel.realised]) : ∃ identity, s = .realised identity := by
  cases s with
  | realised identity => exact ⟨identity, rfl⟩
  | requested | gone | gaveUp => cases List.mem_singleton.mp h

theorem live_iff {s : LifecycleState} :
    s.live = true ↔ StateValue.label s ∈ [LifecycleLabel.requested, LifecycleLabel.realised] := by
  cases s <;> simp [LifecycleState.live, StateValue.label]

variable (r : Resource Request LifecycleState)

/-- **The home accepts an edge exactly as `Moves` says.** -/
theorem decide_iff (e : LifecycleEdge) (world : LifecycleWorld) (now : Timestamp)
    (next : LifecycleState) :
    (lifecycle policy).decide r e world now = .ok (next, []) ↔
      Moves policy world now r.state e next := by
  rw [lifecycle_sound.decide_iff]
  obtain ⟨name, spec, state, since, version⟩ := r
  constructor
  · rintro ⟨-, hfrom, hgate, hmoved⟩
    cases e with
    | realise identity observed =>
      obtain ⟨failures, last, rfl⟩ := exists_requested hfrom
      cases hmoved
      exact .realise (not_not.mp (refuseIf_eq_ok.mp hgate))
    | release teardown =>
      cases hmoved
      exact .release (live_iff.mpr hfrom) (not_not.mp (refuseIf_eq_ok.mp hgate))
    | vanish cause observed =>
      obtain ⟨identity, rfl⟩ := exists_realised hfrom
      cases hmoved
      exact .vanish (not_not.mp (refuseIf_eq_ok.mp hgate))
    | attempted outcome =>
      obtain ⟨failures, last, rfl⟩ := exists_requested hfrom
      cases hmoved
      exact .attempted
    | giveUp cause =>
      obtain ⟨failures, last, rfl⟩ := exists_requested hfrom
      cases hmoved
      obtain ⟨hexhausted, hcause⟩ := not_not.mp (refuseIf_eq_ok.mp hgate)
      exact .giveUp hexhausted hcause
  · intro h
    cases h with
    | realise h | vanish h =>
      exact ⟨rfl, List.mem_singleton_self _, refuseIf_eq_ok.mpr (not_not.mpr h), rfl⟩
    | release hlive h =>
      refine ⟨?_, live_iff.mp hlive, refuseIf_eq_ok.mpr (not_not.mpr h), rfl⟩
      cases state with
      | requested | realised => rfl
      | gone | gaveUp => cases hlive
    | attempted => exact ⟨rfl, List.mem_singleton_self _, rfl, rfl⟩
    | giveUp hexhausted hcause =>
      exact ⟨rfl, List.mem_singleton_self _,
        refuseIf_eq_ok.mpr (not_not.mpr ⟨hexhausted, hcause⟩), rfl⟩

/-- An edge is accepted only while the thing is live. -/
theorem live_of_moves {world : LifecycleWorld} {now : Timestamp} {s s' : LifecycleState}
    {e : LifecycleEdge} (h : Moves policy world now s e s') : s.live = true := by
  cases h with
  | release hlive => exact hlive
  | realise | vanish | attempted | giveUp => rfl

/-- Giving up is accepted on an exhausted tally whose last failure has the cause. -/
theorem accepts_giveUp_iff (cause : Cause) (world : LifecycleWorld) (now : Timestamp) :
    (∃ moved, (lifecycle policy).decide r (.giveUp cause) world now = .ok moved) ↔
      ∃ failures last, r.state = .requested failures last ∧
        (retry policy failures last).exhausted = true ∧
        (retry policy failures last).lastCause = some cause := by
  constructor
  · rintro ⟨moved, h⟩
    obtain ⟨-, hfrom, hgate, -⟩ :=
      (lifecycle_sound.decide_iff r (.giveUp cause) world now moved).mp h
    obtain ⟨failures, last, hstate⟩ := exists_requested hfrom
    have hjudged := not_not.mp (refuseIf_eq_ok.mp hgate)
    rw [show (r.handle world now).state = r.state from rfl, hstate] at hjudged
    exact ⟨failures, last, hstate, hjudged⟩
  · rintro ⟨failures, last, hstate, hexhausted, hcause⟩
    refine ⟨_, (decide_iff r (.giveUp cause) world now (.gaveUp cause)).mpr ?_⟩
    rw [hstate]
    exact .giveUp hexhausted hcause

/-! ### The tally over a run -/

/-- The attempts that accepted edges record. -/
def history (edges : List (LifecycleEdge × Timestamp)) : History :=
  edges.foldl (fun h edge => match edge.1 with
    | .attempted outcome => h.attempt outcome edge.2
    | _ => h) {}

/-- While Requested, the state's tally is that of the attempts made. -/
def Counted (s : LifecycleState) (h : History) : Prop :=
  match s with
  | .requested failures last => Tallies failures last h
  | _ => True

theorem history_snoc (edges : List (LifecycleEdge × Timestamp)) (e : LifecycleEdge)
    (now : Timestamp) :
    history (edges ++ [(e, now)]) = match e with
      | .attempted outcome => (history edges).attempt outcome now
      | _ => history edges := by
  simp [history]

theorem run_counted {request : Request} {start r : Resource Request LifecycleState}
    {edges : List (LifecycleEdge × Timestamp)} (hstart : Admitted (lifecycle policy) request start)
    (run : TimedRun (lifecycle policy) start edges r) : Counted r.state (history edges) := by
  induction run with
  | nil =>
    obtain ⟨name, world, now, version, spec, state, hadmits, -⟩ := hstart
    cases hadmits
    exact .start
  | @snoc edges e r moved _ world now version h ih =>
    obtain ⟨next, writes⟩ := moved
    cases writes with
    | cons write => exact write.elim
    | nil =>
      rw [history_snoc]
      have hmoves := (decide_iff r e world now next).mp h
      generalize r.state = s at hmoves ih
      cases hmoves with
      | attempted => exact .attempt ih _ now
      | realise | release | vanish | giveUp => trivial

/-! ### The course of a run -/

/-- The accepted edges after the attempts, and where they lead. -/
inductive Course : List LifecycleEdge → LifecycleState → Prop where
  | requested (failures last) : Course [] (.requested failures last)
  | realised (identity observed) : Course [.realise identity observed] (.realised identity)
  | gaveUp (cause) : Course [.giveUp cause] (.gaveUp cause)
  | cancelled (teardown) : Course [.release teardown] (.gone .released)
  | released (identity observed teardown) :
      Course [.realise identity observed, .release teardown] (.gone .released)
  | vanished (identity observed cause seen) :
      Course [.realise identity observed, .vanish cause seen] (.gone cause.ending)

/-- **Every run tries, is realised at most once and ends at most once**, in this order. -/
theorem run_course {request : Request} {start r : Resource Request LifecycleState}
    {edges : List LifecycleEdge} (hstart : Admitted (lifecycle policy) request start)
    (run : Run (lifecycle policy) anywhere start edges r) :
    ∃ tries rest, edges = tries ++ rest ∧ (∀ e ∈ tries, ∃ outcome, e = .attempted outcome) ∧
      Course rest r.state := by
  induction run with
  | nil =>
    obtain ⟨name, world, now, version, spec, state, hadmits, -⟩ := hstart
    cases hadmits
    exact ⟨[], [], rfl, nofun, .requested 0 none⟩
  | @snoc _ e r _ _ _ happlied ih =>
    obtain ⟨world, now, version, ⟨next, writes⟩, h⟩ := happlied
    obtain ⟨tries, rest, rfl, htries, hcourse⟩ := ih
    cases writes with
    | cons write => exact write.elim
    | nil =>
      have hmoves := (decide_iff r e world now next).mp h
      show ∃ _ _, _ ∧ _ ∧ Course _ next
      generalize r.state = s at hmoves hcourse
      rw [List.append_assoc]
      cases hmoves with
      | attempted =>
        cases hcourse
        refine ⟨tries ++ [_], [], (List.append_nil _).symm, ?_, .requested _ _⟩
        exact List.forall_mem_append.mpr ⟨htries, by simp⟩
      | realise | giveUp | vanish =>
        cases hcourse
        exact ⟨tries, _, rfl, htries, by constructor⟩
      | release hlive =>
        cases hcourse with
        | requested => exact ⟨tries, _, rfl, htries, .cancelled _⟩
        | realised => exact ⟨tries, _, rfl, htries, .released _ _ _⟩
        | gaveUp | cancelled | released | vanished => cases hlive

/-- A thing whose first attempt fails, and that is lost after it was realised. -/
theorem run_course_lost :
    ∃ tries rest, [LifecycleEdge.attempted (.failed ⟨.transient, "timeout"⟩ true),
        .realise "p1" "seen", .vanish .lost "unseen"] = tries ++ rest ∧
      (∀ e ∈ tries, ∃ outcome, e = .attempted outcome) ∧ Course rest (.gone .lost) := by
  let world : LifecycleWorld := ⟨fun _ => some "p1", fun _ => none, fun _ => some true⟩
  have hstart : Admitted (lifecycle .doubling) () _ := ⟨"v1", world, 0, 1, (), _, rfl, rfl⟩
  refine run_course hstart (.snoc (.snoc (.snoc .nil trivial
    ⟨world, 5, 2, (.requested 1 (some ⟨5, ⟨.transient, "timeout"⟩, true⟩), []), ?_⟩) trivial
    ⟨world, 9, 3, (.realised "p1", []), ?_⟩) trivial ⟨world, 12, 4, (.gone .lost, []), ?_⟩)
  · exact (decide_iff _ _ world 5 _).mpr .attempted
  · exact (decide_iff _ _ world 9 _).mpr (.realise rfl)
  · exact (decide_iff _ _ world 12 _).mpr (.vanish rfl)

end Machine

end Flotilla.Lifecycle
