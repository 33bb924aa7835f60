import Flotilla.Engine.Machine

/-!
# Attempts

An attempt edge carries its outcome.  The state keeps the tally of the current
window: the consecutive failures since the last success, and the latest of them;
the retry judgement reads only that.  The specification keeps every attempt and
counts over the list.  `Tallies` is what ties the two.
-/

namespace Flotilla.Attempt

open Engine (U32 u32Count)

/-! ### Outcomes and the tally -/

inductive CauseCategory where
  | transient
  | refused
  | misconfigured
  | missingCapability
  | external
  deriving DecidableEq, Repr

structure Cause where
  category : CauseCategory
  detail : String
  deriving DecidableEq, Repr

/-- How one attempt ended. -/
inductive Outcome where
  | succeeded
  | failed (cause : Cause) (retryable : Bool)
  deriving DecidableEq, Repr

/-- The latest failure of the current window. -/
structure Failure where
  at_ : Timestamp
  cause : Cause
  retryable : Bool
  deriving DecidableEq

def u32Max : Nat := u32Count - 1

/-- What an attempt applied at `at_` leaves in the state. -/
def tally (failures : Nat) (outcome : Outcome) (at_ : Timestamp) : Nat × Option Failure :=
  match outcome with
  | .succeeded => (0, none)
  | .failed cause retryable => (min (failures + 1) u32Max, some { at_, cause, retryable })

/-! ### The retry judgement -/

def i64Max : Int := 2 ^ 63 - 1

/-- An `i64` that saturates. -/
def saturate (n : Int) : Int := max (-2 ^ 63) (min n i64Max)

/-- How many consecutive failures a window allows, and the backoff between them. -/
structure AttemptPolicy where
  maxFailures : U32
  base : Int
  factor : U32
  cap : Int

namespace AttemptPolicy

variable (policy : AttemptPolicy)

/-- The loop of `backoff`: the delay grows until it reaches the cap. -/
def grow : Nat → Int → Int
  | 0, delay => delay
  | n + 1, delay =>
    if delay ≥ policy.cap then delay else grow n (saturate (delay * max policy.factor.val 1))

/-- The delay after the `failures`-th consecutive failure. -/
def backoff (failures : Nat) : Int :=
  min (policy.grow (failures - 1) (max policy.base 0)) (max policy.cap 0)

/-- Consecutive failures after which a window is exhausted: at least one. -/
def limit : Nat := max policy.maxFailures.val 1

end AttemptPolicy

inductive Schedule where
  | now
  | at_ (moment : Timestamp)
  | exhausted
  deriving DecidableEq

structure Retry where
  failures : Nat
  schedule : Schedule
  lastCause : Option Cause

def Retry.exhausted (r : Retry) : Bool := r.schedule = .exhausted

/-- The retry judgement for the current window, from the state's tally. -/
def retry (policy : AttemptPolicy) (failures : Nat) (last : Option Failure) : Retry :=
  match last.filter fun _ => failures > 0 with
  | none => { failures := 0, schedule := .now, lastCause := none }
  | some last =>
    let schedule :=
      if ¬ last.retryable ∨ failures ≥ policy.limit then .exhausted
      else .at_ (saturate (last.at_ + policy.backoff failures))
    { failures, schedule, lastCause := some last.cause }

/-! ### The specification -/

/-- Every attempt, and where the current window starts. -/
structure History where
  attempts : List (Outcome × Timestamp) := []
  window : Nat := 0

namespace History

variable (h : History)

def failedAt (i : Nat) : Bool := h.attempts[i]?.any fun attempt => attempt.1 ≠ .succeeded

def succeededAt (i : Nat) : Bool := h.attempts[i]?.any fun attempt => attempt.1 = .succeeded

/-- A failure of the window with no success after it. -/
def counts (i : Nat) : Bool :=
  i ≥ h.window ∧ h.failedAt i ∧
    ¬ (List.range h.attempts.length).any fun j => j > i ∧ h.succeededAt j

/-- Only the suffix after the latest success in the current window counts. -/
def failureCount : Nat := ((List.range h.attempts.length).filter h.counts).length

/-- The last attempt of the window, if it failed. -/
def lastFailure : Option Failure :=
  if h.attempts.length > h.window then
    h.attempts.getLast?.bind fun attempt =>
      match attempt.1 with
      | .succeeded => none
      | .failed cause retryable => some { at_ := attempt.2, cause, retryable }
  else none

/-- The count reaches the limit, or the last attempt of the window cannot be retried. -/
def exhausted (limit : Nat) : Bool :=
  h.failureCount ≥ limit ∨ h.lastFailure.any fun last => ¬ last.retryable

/-- The last attempt failed with the cause. -/
def lastCauseIs (cause : Cause) : Bool := h.lastFailure.any fun last => last.cause = cause

def attempt (outcome : Outcome) (at_ : Timestamp) : History :=
  { h with attempts := h.attempts ++ [(outcome, at_)] }

/-- A new window starts after every attempt so far. -/
def resume : History := { h with window := h.attempts.length }

variable {h}

theorem failedAt_attempt {i : Nat} (hi : i < h.attempts.length) (outcome : Outcome)
    (at_ : Timestamp) : (h.attempt outcome at_).failedAt i = h.failedAt i := by
  rw [failedAt, failedAt, attempt, List.getElem?_append_left hi]

theorem succeededAt_attempt {i : Nat} (hi : i < h.attempts.length) (outcome : Outcome)
    (at_ : Timestamp) : (h.attempt outcome at_).succeededAt i = h.succeededAt i := by
  rw [succeededAt, succeededAt, attempt, List.getElem?_append_left hi]

theorem length_attempt (outcome : Outcome) (at_ : Timestamp) :
    (h.attempt outcome at_).attempts.length = h.attempts.length + 1 := by
  simp [attempt]

/-- A success ends the count. -/
theorem failureCount_succeeded (at_ : Timestamp) : (h.attempt .succeeded at_).failureCount = 0 := by
  have hlast : (h.attempt .succeeded at_).succeededAt h.attempts.length = true := by
    simp [succeededAt, attempt]
  rw [failureCount, List.length_eq_zero_iff, List.filter_eq_nil_iff]
  intro i hi
  rw [List.mem_range, length_attempt] at hi
  simp only [counts, decide_eq_true_eq, not_and, not_not, List.any_eq_true, List.mem_range,
    length_attempt]
  intro _ hfailed
  by_cases hlt : i < h.attempts.length
  · exact ⟨h.attempts.length, by omega, hlt, hlast⟩
  · obtain rfl : i = h.attempts.length := by omega
    simp [failedAt, attempt] at hfailed

/-- A failure adds one. -/
theorem failureCount_failed (hwindow : h.window ≤ h.attempts.length) (cause : Cause)
    (retryable : Bool) (at_ : Timestamp) :
    (h.attempt (.failed cause retryable) at_).failureCount = h.failureCount + 1 := by
  have hnew : (h.attempt (.failed cause retryable) at_).succeededAt h.attempts.length = false := by
    simp [succeededAt, attempt]
  have hsame : ∀ i ∈ List.range h.attempts.length,
      (h.attempt (.failed cause retryable) at_).counts i = h.counts i := by
    intro i hi
    rw [List.mem_range] at hi
    have hany : ((List.range (h.attempt (.failed cause retryable) at_).attempts.length).any
        fun j => j > i ∧ (h.attempt (.failed cause retryable) at_).succeededAt j) =
        (List.range h.attempts.length).any fun j => j > i ∧ h.succeededAt j := by
      rw [length_attempt, List.range_succ, List.any_append]
      simp only [List.any_cons, List.any_nil, hnew, Bool.false_eq_true, and_false, decide_false,
        Bool.or_false]
      rw [Bool.eq_iff_iff, List.any_eq_true, List.any_eq_true]
      refine exists_congr fun j => and_congr_right fun hj => ?_
      rw [succeededAt_attempt (List.mem_range.mp hj)]
    rw [counts, counts, hany, failedAt_attempt hi]
    rfl
  have hlast : (h.attempt (.failed cause retryable) at_).counts h.attempts.length = true := by
    have hnone : ((List.range (h.attempt (.failed cause retryable) at_).attempts.length).any
        fun j => j > h.attempts.length ∧
          (h.attempt (.failed cause retryable) at_).succeededAt j) = false := by
      rw [List.any_eq_false]
      intro j hj
      rw [List.mem_range, length_attempt] at hj
      simp only [decide_eq_true_eq]
      omega
    rw [counts, hnone]
    simp [failedAt, attempt, hwindow]
  rw [failureCount, failureCount, length_attempt, List.range_succ, List.filter_append,
    List.filter_congr hsame]
  simp [hlast]

theorem failureCount_of_window (hwindow : h.window = h.attempts.length) : h.failureCount = 0 := by
  rw [failureCount, List.length_eq_zero_iff, List.filter_eq_nil_iff]
  intro i hi
  rw [List.mem_range] at hi
  simp only [counts, decide_eq_true_eq, not_and]
  omega

theorem lastFailure_attempt (hwindow : h.window ≤ h.attempts.length) (outcome : Outcome)
    (at_ : Timestamp) : (h.attempt outcome at_).lastFailure = (tally 0 outcome at_).2 := by
  rw [lastFailure, if_pos (by rw [length_attempt]; exact Nat.lt_succ_of_le hwindow)]
  cases outcome <;> simp [attempt, tally]

end History

/-! ### The tally follows the history -/

/-- The stored tally is that of the history's window. -/
structure Tallies (failures : Nat) (last : Option Failure) (h : History) : Prop where
  window : h.window ≤ h.attempts.length
  failures : failures = min h.failureCount u32Max
  last : last = h.lastFailure
  /-- The last failure is there exactly when one counts. -/
  isSome : h.lastFailure.isSome ↔ 0 < h.failureCount

namespace Tallies

variable {failures : Nat} {last : Option Failure} {h : History}

theorem start : Tallies 0 none {} :=
  ⟨le_rfl, rfl, rfl, by decide⟩

theorem attempt (ht : Tallies failures last h) (outcome : Outcome) (at_ : Timestamp) :
    Tallies (tally failures outcome at_).1 (tally failures outcome at_).2
      (h.attempt outcome at_) := by
  have hlast := History.lastFailure_attempt ht.window outcome at_
  have hwindow : (h.attempt outcome at_).window ≤ (h.attempt outcome at_).attempts.length := by
    rw [History.length_attempt]
    exact ht.window.trans (Nat.le_succ _)
  cases outcome with
  | succeeded =>
    have hcount : (h.attempt .succeeded at_).failureCount = 0 := History.failureCount_succeeded at_
    exact ⟨hwindow, by rw [hcount]; rfl, by rw [hlast]; rfl, by rw [hlast, hcount]; simp [tally]⟩
  | failed cause retryable =>
    have hcount := History.failureCount_failed ht.window cause retryable at_
    refine ⟨hwindow, ?_, by rw [hlast]; rfl, by rw [hlast, hcount]; simp [tally]⟩
    show min (failures + 1) u32Max = _
    rw [ht.failures]
    omega

theorem resume (h : History) : Tallies 0 none h.resume := by
  have hcount : h.resume.failureCount = 0 := History.failureCount_of_window rfl
  have hlast : h.resume.lastFailure = none := if_neg (lt_irrefl _)
  exact ⟨le_rfl, by rw [hcount]; rfl, hlast.symm, by rw [hlast, hcount]; simp⟩

theorem limit_le (policy : AttemptPolicy) : 0 < policy.limit ∧ policy.limit ≤ u32Max := by
  have hpos : u32Max = u32Count - 1 ∧ 1 < u32Count := ⟨rfl, by decide⟩
  rw [AttemptPolicy.limit]
  omega

/-- The judgement on a window that ends in a failure. -/
theorem retry_some {f : Failure} (hpos : 0 < failures) (policy : AttemptPolicy) :
    retry policy failures (some f) = {
      failures
      schedule := if ¬ f.retryable ∨ failures ≥ policy.limit then .exhausted
        else .at_ (saturate (f.at_ + policy.backoff failures))
      lastCause := some f.cause } := by
  simp [retry, Option.filter, hpos]

/-- The window of a last failure counts one, and so does the tally. -/
theorem pos_of_last {f : Failure} (ht : Tallies failures last h) (hlast : h.lastFailure = some f) :
    0 < failures := by
  have hcount : 0 < h.failureCount := ht.isSome.mp (by rw [hlast]; rfl)
  rw [ht.failures]
  exact Nat.lt_min.mpr ⟨hcount, by decide⟩

/-- **The retry judgement is exhausted when the specification's window is.** -/
theorem exhausted_iff (ht : Tallies failures last h) (policy : AttemptPolicy) :
    (retry policy failures last).exhausted = true ↔ h.exhausted policy.limit = true := by
  obtain ⟨hpos, hmax⟩ := limit_le policy
  have hsome := ht.isSome
  have hfailures := ht.failures
  rw [ht.last]
  cases hlast : h.lastFailure with
  | none =>
    have hzero : h.failureCount = 0 := by simpa [hlast] using hsome
    simp [retry, Retry.exhausted, History.exhausted, hlast, hzero]
    omega
  | some f =>
    have hreach : failures ≥ policy.limit ↔ h.failureCount ≥ policy.limit := by omega
    rw [retry_some (ht.pos_of_last hlast)]
    simp only [Retry.exhausted, History.exhausted, hlast, Option.any_some, decide_eq_true_eq,
      hreach]
    constructor
    · intro hif
      split_ifs at hif with hcond
      exact hcond.symm
    · intro hcond
      rw [if_pos hcond.symm]

/-- The cause it reports is that of the window's last failure. -/
theorem lastCause_eq (ht : Tallies failures last h) (policy : AttemptPolicy) :
    (retry policy failures last).lastCause = h.lastFailure.map Failure.cause := by
  rw [ht.last]
  cases hlast : h.lastFailure with
  | none => rfl
  | some f =>
    rw [retry_some (ht.pos_of_last hlast)]
    rfl

theorem lastCause_iff (ht : Tallies failures last h) (policy : AttemptPolicy) (cause : Cause) :
    (retry policy failures last).lastCause = some cause ↔ h.lastCauseIs cause = true := by
  rw [ht.lastCause_eq, History.lastCauseIs]
  cases h.lastFailure <;> simp

end Tallies

/-! ### The delay between failures -/

/-- What an `i64` holds. -/
def InI64 (n : Int) : Prop := -2 ^ 63 ≤ n ∧ n ≤ i64Max

theorem saturate_inI64 (n : Int) : InI64 (saturate n) := by
  unfold InI64 saturate i64Max
  omega

namespace AttemptPolicy

variable (policy : AttemptPolicy)

theorem grow_inI64 (n : Nat) {delay : Int} (hdelay : InI64 delay) :
    InI64 (policy.grow n delay) := by
  induction n generalizing delay with
  | zero => exact hdelay
  | succ n ih =>
    rw [grow]
    split
    · exact hdelay
    · exact ih (saturate_inI64 _)

theorem one_le_factor : (1 : Int) ≤ (max policy.factor.val 1 : Nat) := by
  exact_mod_cast le_max_right _ _

/-- Past the cap a further factor makes no difference. -/
theorem min_cap_mul_pow {delay : Int} (hdelay : max policy.cap 0 ≤ delay) (n : Nat) :
    min (max policy.cap 0) (delay * max policy.factor.val 1 ^ n) = max policy.cap 0 := by
  have hpow : (1 : Int) ≤ max policy.factor.val 1 ^ n := one_le_pow₀ policy.one_le_factor
  have hpos : 0 ≤ delay := (le_max_right _ _).trans hdelay
  exact min_eq_left (hdelay.trans (le_mul_of_one_le_right hpos hpow))

/-- Under the final minimum neither the early stop of the loop nor its saturation is seen. -/
theorem min_grow (hcap : policy.cap ≤ i64Max) (n : Nat) {delay : Int} (hpos : 0 ≤ delay) :
    min (policy.grow n delay) (max policy.cap 0) =
      min (max policy.cap 0) (delay * max policy.factor.val 1 ^ n) := by
  have hmax : max policy.cap 0 ≤ i64Max := max_le hcap (by decide)
  induction n generalizing delay with
  | zero => rw [grow, pow_zero, mul_one, min_comm]
  | succ n ih =>
    rw [grow]
    split
    case isTrue hstop =>
      have hle : max policy.cap 0 ≤ delay := max_le hstop hpos
      rw [min_eq_right hle, min_cap_mul_pow policy hle]
    case isFalse =>
      have hnext : 0 ≤ delay * max policy.factor.val 1 := mul_nonneg hpos (by simp)
      by_cases hfits : delay * max policy.factor.val 1 ≤ i64Max
      · have hsame : saturate (delay * max policy.factor.val 1) =
            delay * max policy.factor.val 1 := by
          unfold saturate
          omega
        rw [hsame, ih hnext, mul_assoc, ← pow_succ']
      · -- a product above `i64` is past the cap, and so is the value it saturates to
        have hfull : saturate (delay * max policy.factor.val 1) = i64Max := by
          unfold saturate i64Max at *
          omega
        rw [hfull, ih (by decide), min_cap_mul_pow policy hmax, pow_succ', ← mul_assoc,
          min_cap_mul_pow policy (hmax.trans (not_le.mp hfits).le)]

/-- **The saturating loop computes the exact exponential up to the cap**: every
value it takes is an `i64`, and the delay never falls from one failure to the next. -/
theorem backoff_exact (hbase : InI64 policy.base) (hcap : InI64 policy.cap) :
    (∀ failures, 1 ≤ failures → policy.backoff failures =
      min (max policy.cap 0) (max policy.base 0 * max policy.factor.val 1 ^ (failures - 1))) ∧
    (∀ n m, 1 ≤ n → n ≤ m → policy.backoff n ≤ policy.backoff m) ∧
    ∀ n, InI64 (policy.grow n (max policy.base 0)) ∧ InI64 (policy.backoff n) := by
  have heq : ∀ failures, policy.backoff failures =
      min (max policy.cap 0) (max policy.base 0 * max policy.factor.val 1 ^ (failures - 1)) :=
    fun failures => min_grow policy hcap.2 _ (le_max_right _ _)
  refine ⟨fun failures _ => heq failures, ?_, ?_⟩
  · intro n m _ hle
    rw [heq, heq]
    have hpow := pow_le_pow_right₀ policy.one_le_factor (Nat.sub_le_sub_right hle 1)
    exact min_le_min_left _ (mul_le_mul_of_nonneg_left hpow (le_max_right _ _))
  · intro n
    have hgrow : InI64 (policy.grow n (max policy.base 0)) := by
      refine policy.grow_inI64 n ⟨?_, max_le hbase.2 (by decide)⟩
      exact hbase.1.trans (le_max_left _ _)
    have hpos : 0 ≤ policy.backoff n := by
      rw [heq]
      exact le_min (le_max_right _ _) (mul_nonneg (le_max_right _ _) (by positivity))
    refine ⟨hgrow, ?_, (min_le_right _ _).trans (max_le hcap.2 (by decide))⟩
    exact le_trans (by decide) hpos

/-- Doubling from five, with the eighty of the fifth failure cut at the cap. -/
def doubling : AttemptPolicy where
  maxFailures := ⟨9, by decide⟩
  base := 5
  factor := ⟨2, by decide⟩
  cap := 60

theorem doubling_backoff : doubling.backoff 4 = 40 ∧ doubling.backoff 5 = 60 := by
  have hexact := (backoff_exact doubling ⟨by decide, by decide⟩ ⟨by decide, by decide⟩).1
  exact ⟨(hexact 4 (by decide)).trans (by decide), (hexact 5 (by decide)).trans (by decide)⟩

end AttemptPolicy

end Flotilla.Attempt
