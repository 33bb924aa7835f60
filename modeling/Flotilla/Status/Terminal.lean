import Flotilla.Status.Patch

/-!
# Terminal statuses

A convoy that landed, failed or was abandoned is settled: patches computed from
an older status, and repeated ones, leave it alone.  Only an operator who saw
the very phase may still abandon it.

* `Settled` : the part of a status that is settled.
* `ConvoyStatusPatch.abandons` : the patch, or the transition inside a landing
  event, is an abandon that names the phase.
* `apply_terminal` : what one patch does to a terminal status.
* `early_return_nonterminal` : a body that returns early leaves a status that is
  not terminal, so the stall condition is always cleared on the way there.
* `patches_terminal` : what any sequence of patches does.
-/

namespace Flotilla.Status

open Lib ConvoyStatus

/-- What a terminal status fixes. -/
structure Settled (s s' : ConvoyStatus) : Prop where
  phase : s'.phase = s.phase
  promises : s'.promises = s.promises
  work : s'.work = s.work
  crewWork : s'.crewWork = s.crewWork
  finishedAt : s'.finishedAt = s.finishedAt

theorem Settled.refl (s : ConvoyStatus) : Settled s s := ⟨rfl, rfl, rfl, rfl, rfl⟩

theorem Settled.trans {s s' s'' : ConvoyStatus} (h : Settled s s') (h' : Settled s' s'') :
    Settled s s'' :=
  ⟨h'.phase.trans h.phase, h'.promises.trans h.promises, h'.work.trans h.work,
    h'.crewWork.trans h.crewWork, h'.finishedAt.trans h.finishedAt⟩

namespace ConvoyStatus

variable (s : ConvoyStatus)

theorem settled_clearTerminalStall : Settled s s.clearTerminalStall := by
  unfold clearTerminalStall
  split <;> exact ⟨rfl, rfl, rfl, rfl, rfl⟩

theorem settled_markEventEmitted : Settled s s.markEventEmitted := ⟨rfl, rfl, rfl, rfl, rfl⟩

theorem settled_observeQueuedTurns (observedAt : DateTime)
    (observations : List QueuedTurnObservation) :
    Settled s (observations.foldl (observeQueuedTurn observedAt) s) :=
  List.foldlRecOn observations _ (.refl s) fun _ h _ _ => h.trans ⟨rfl, rfl, rfl, rfl, rfl⟩

theorem settled_observeQueuedTurnDeliveries (names : Spelling)
    (observations : List QueuedTurnObservation) (observedAt : DateTime) :
    Settled s (s.observeQueuedTurnDeliveries names observations observedAt) := by
  have hobserved := settled_observeQueuedTurns s observedAt observations
  unfold observeQueuedTurnDeliveries
  dsimp only
  split
  case isTrue => exact hobserved.trans ⟨rfl, rfl, rfl, rfl, rfl⟩
  case isFalse => exact hobserved

theorem handed_phase (vessel sender target : String) (b : Bool) :
    (if b = true then s.handoff vessel sender target else s).phase = s.phase := by
  unfold handoff
  repeat' split
  all_goals rfl

end ConvoyStatus

namespace ConvoyStatusPatch

variable {names : Spelling} {s : ConvoyStatus}

/-- The patch, or the transition inside a landing event, abandons a convoy in this phase. -/
def abandons (phase : ConvoyPhase) : ConvoyStatusPatch → Bool
  | .markConvoyAbandoned expectedPhase _ _ _ => expectedPhase = phase
  | .recordLandingEvent (some transition) => transition.abandons phase
  | _ => false

variable {patch : ConvoyStatusPatch} {s' : ConvoyStatus}

theorem apply_of_not_exempt (hs : s.phase.isTerminal = true) (h : patch.exempt s = false) :
    patch.apply names s = s := by
  unfold apply guarded
  simp [hs, h]

theorem apply_of_exempt (h : patch.exempt s = true) (hbody : patch.body names s = .ok s') :
    patch.apply names s = s'.clearTerminalStall := by
  unfold apply guarded
  simp [h, hbody]

/-- A landing event with a transition is the transition, the note and the cleaning up. -/
theorem apply_landingEvent (transition : ConvoyStatusPatch) :
    (recordLandingEvent (some transition)).apply names s =
      (transition.apply names s).markEventEmitted.clearTerminalStall :=
  apply_of_exempt rfl (by simp only [body]; rfl)

/-- An exempt patch whose body leaves the settled part alone. -/
theorem settled_apply (h : patch.exempt s = true) (hbody : patch.body names s = .ok s')
    (hs' : Settled s s') : Settled s (patch.apply names s) := by
  rw [apply_of_exempt h hbody]
  exact hs'.trans (settled_clearTerminalStall s')

theorem apply_abandoned {expectedPhase : ConvoyPhase} {finishedAt : DateTime}
    {authority : WorkCompletionAuthority} {reason : String} (hphase : expectedPhase = s.phase)
    (hexempt : s.phase ≠ .abandoned) :
    ((markConvoyAbandoned expectedPhase finishedAt authority reason).apply names s).phase =
      .abandoned := by
  have hexempt' : (markConvoyAbandoned expectedPhase finishedAt authority reason).exempt s =
      true := by
    simp [exempt, hphase, hexempt]
  obtain ⟨s', hbody, hs'⟩ : ∃ s',
      (markConvoyAbandoned expectedPhase finishedAt authority reason).body names s = .ok s' ∧
        s'.phase = .abandoned := by
    simp only [body, ConvoyStatus.markConvoyAbandoned]
    rw [refuseIf_bind (by simp [hphase])]
    exact ⟨_, rfl, rfl⟩
  rw [apply_of_exempt hexempt' hbody, (settled_clearTerminalStall s').phase, hs']

/-- **A terminal status under one patch**: everything settled stays, or the patch abandons the
convoy in exactly the phase it was in. -/
theorem apply_terminal (names : Spelling) {s : ConvoyStatus} (hs : s.phase.isTerminal = true) :
    ∀ patch : ConvoyStatusPatch, Settled s (patch.apply names s) ∨
      (s.phase ≠ .abandoned ∧ patch.abandons s.phase = true ∧
        (patch.apply names s).phase = .abandoned) := by
  intro patch
  cases patch with
  | observeEnvironment | recordLifecycleMutation | setStalled | setTeardownWait =>
    exact .inl (settled_apply rfl rfl ⟨rfl, rfl, rfl, rfl, rfl⟩)
  | observeQueuedTurnDeliveries observations observedAt =>
    exact .inl (settled_apply rfl rfl
      (settled_observeQueuedTurnDeliveries s names observations observedAt))
  | recordLandingEvent transition =>
    cases transition with
    | none =>
      exact .inl (settled_apply rfl (by simp only [body]; rfl) (settled_markEventEmitted s))
    | some transition =>
      -- The nested patch meets the same guard.
      have hmark : Settled (transition.apply names s)
          ((recordLandingEvent (some transition)).apply names s) := by
        rw [apply_landingEvent]
        exact (settled_markEventEmitted _).trans (settled_clearTerminalStall _)
      rcases apply_terminal names hs transition with hsettled | ⟨hne, habandons, hphase⟩
      · exact .inl (hsettled.trans hmark)
      · refine .inr ⟨hne, ?_, hmark.phase.trans hphase⟩
        exact habandons
  | markConvoyAbandoned expectedPhase =>
    by_cases hphase : expectedPhase = s.phase ∧ s.phase ≠ .abandoned
    · exact .inr ⟨hphase.2, by simp [abandons, hphase.1], apply_abandoned hphase.1 hphase.2⟩
    · refine .inl ?_
      rw [apply_of_not_exempt hs (by simpa [exempt] using hphase)]
      exact .refl s
  | _ =>
    rw [apply_of_not_exempt hs rfl]
    exact .inl (.refl s)

/-! ### Early returns -/

theorem bind_refuseIf_eq_error {p : Prop} [Decidable p] {e : ConvoyStatus} {f : Unit → Flow}
    (h : (refuseIf p e >>= f) = .error s') : (p ∧ s' = e) ∨ (¬ p ∧ f () = .error s') := by
  by_cases hp : p
  · simp only [refuseIf, if_pos hp] at h
    exact .inl ⟨hp, (Except.error.inj h).symm⟩
  · rw [refuseIf_bind hp] at h
    exact .inr ⟨hp, h⟩

theorem enterLanding_phase (hs : s.phase.isTerminal = false) (at_ : DateTime) :
    (s.enterLandingIfCompletionClaimsSettled at_).phase.isTerminal = false := by
  unfold enterLandingIfCompletionClaimsSettled
  split
  case isTrue => rfl
  case isFalse => exact hs

/-- **A body that returns early leaves a status that is not terminal.** -/
theorem early_return_nonterminal (hs : s.phase.isTerminal = false)
    (h : patch.body names s = .error s') : s'.phase.isTerminal = false := by
  cases patch with
  | restoreTurnActivation | settle | forceWorkCompleted | markWorkFailed | markWorkCancelled
  | markConvoyAbandoned | markCrewCompleted | resumeCrewWork | beginMessageFollowUp
  | recordTurnDelivery =>
    rcases bind_refuseIf_eq_error h with ⟨-, rfl⟩ | ⟨-, h⟩
    · exact hs
    · cases h
  | deriveCrewDone vessel role at_ engine =>
    rcases bind_refuseIf_eq_error h with ⟨-, rfl⟩ | ⟨-, h⟩
    · exact hs
    rcases bind_refuseIf_eq_error h with ⟨-, rfl⟩ | ⟨-, h⟩
    · exact hs
    cases hcrew : s.crewAt vessel role with
    | none =>
      rw [hcrew] at h
      cases h
      exact hs
    | some state =>
      rw [hcrew] at h
      rcases bind_refuseIf_eq_error h with ⟨-, rfl⟩ | ⟨-, h⟩
      · split
        case isTrue => exact enterLanding_phase hs at_
        case isFalse => exact hs
      · cases h
  | markCrewStalled =>
    rcases bind_refuseIf_eq_error h with ⟨-, rfl⟩ | ⟨-, h⟩
    · exact hs
    rcases bind_refuseIf_eq_error h with ⟨-, rfl⟩ | ⟨-, h⟩
    · exact hs
    · cases h
  | handoffCrewWork vessel sender target handedOffAt message =>
    simp only [body, ConvoyStatus.handoffCrewWork] at h
    generalize hcrew : (modifyWork _ vessel _).crewWork[vessel]? = crew at h
    cases crew with
    | none =>
      cases h
      exact (congrArg ConvoyPhase.isTerminal (handed_phase ..)).trans hs
    | some crew => cases h
  | recordLandingEvent transition =>
    cases transition <;> simp only [body] at h <;> cases h
  | _ =>
    cases h

/-- A patch that makes a status terminal clears its stall condition. -/
theorem apply_stalled (hs : s.phase.isTerminal = false)
    (h : (patch.apply names s).phase.isTerminal = true) : (patch.apply names s).stalled = none := by
  unfold apply guarded at h ⊢
  rw [hs, Bool.false_and, if_neg Bool.false_ne_true] at h ⊢
  cases hbody : patch.body names s with
  | error returned =>
    rw [hbody] at h
    exact absurd (early_return_nonterminal hs hbody) (by rw [h]; exact Bool.noConfusion)
  | ok reached =>
    rw [hbody] at h
    have hphase := (settled_clearTerminalStall reached).phase
    dsimp only at h ⊢
    rw [hphase] at h
    unfold clearTerminalStall
    rw [if_pos h]

end ConvoyStatusPatch

/-! ### Sequences of patches -/

/-- Patches applied in turn. -/
def applyAll (names : Spelling) (s : ConvoyStatus) (patches : List ConvoyStatusPatch) :
    ConvoyStatus :=
  patches.foldl (fun s patch => patch.apply names s) s

/-- **What any sequence of patches does to a terminal status.**  The settled part stays as it is
through the whole sequence, or up to a patch that abandons the convoy in exactly its phase and then
from that patch on; a status that is abandoned stays settled.  And no patch leaves a stall condition
on a status that it makes terminal. -/
theorem patches_terminal (names : Spelling) (s : ConvoyStatus)
    (patches : List ConvoyStatusPatch) :
    (s.phase.isTerminal = true →
      Settled s (applyAll names s patches) ∨
        (s.phase ≠ .abandoned ∧ ∃ before patch after, patches = before ++ patch :: after ∧
          Settled s (applyAll names s before) ∧ patch.abandons s.phase = true ∧
          (patch.apply names (applyAll names s before)).phase = .abandoned ∧
          Settled (patch.apply names (applyAll names s before)) (applyAll names s patches))) ∧
    ∀ patch : ConvoyStatusPatch, s.phase.isTerminal = false →
      (patch.apply names s).phase.isTerminal = true → (patch.apply names s).stalled = none := by
  refine ⟨?_, fun patch hs h => ConvoyStatusPatch.apply_stalled hs h⟩
  -- Induction on the sequence; the abandon, if there is one, is the first patch that takes effect.
  induction patches generalizing s with
  | nil => exact fun _ => .inl (.refl s)
  | cons patch patches ih =>
    intro hs
    rcases ConvoyStatusPatch.apply_terminal names hs patch with hstep | ⟨hne, habandons, hphase⟩
    · have hterm : (patch.apply names s).phase.isTerminal = true := by rw [hstep.phase]; exact hs
      rcases ih (patch.apply names s) hterm with hrest | ⟨hne, before, p, after, rfl, hb,
        ha, hp, hr⟩
      · exact .inl (hstep.trans hrest)
      · rw [hstep.phase] at hne ha
        exact .inr ⟨hne, patch :: before, p, after, rfl, hstep.trans hb, ha, hp, hr⟩
    · refine .inr ⟨hne, [], patch, patches, rfl, .refl s, habandons, hphase, ?_⟩
      have hterm : (patch.apply names s).phase.isTerminal = true := by rw [hphase]; rfl
      rcases ih (patch.apply names s) hterm with hrest | ⟨hne, -⟩
      · exact hrest
      · exact absurd hphase hne

/-- A failed convoy takes no stale settlement and is abandoned by the operator who saw it fail. -/
theorem patches_terminal_overridden :
    ∃ before patch after,
      [ConvoyStatusPatch.settle none "merged" [] 60,
        .markConvoyAbandoned .failed 70 .humanOverride "reclaim",
        .markConvoyAbandoned .failed 80 .humanOverride "again"] = before ++ patch :: after ∧
      Settled { phase := .failed, finishedAt := some 50 }
        (applyAll ⟨fun _ => none, fun _ => none, fun _ => none, toString⟩
          { phase := .failed, finishedAt := some 50 } before) ∧
      patch.abandons .failed = true := by
  have hrun := (patches_terminal ⟨fun _ => none, fun _ => none, fun _ => none, toString⟩
    { phase := .failed, finishedAt := some 50 }
    [.settle none "merged" [] 60, .markConvoyAbandoned .failed 70 .humanOverride "reclaim",
      .markConvoyAbandoned .failed 80 .humanOverride "again"]).1 rfl
  rcases hrun with hsettled | ⟨-, before, patch, after, heq, hbefore, habandons, -⟩
  · exact absurd hsettled.phase (by decide +kernel)
  · exact ⟨before, patch, after, heq, hbefore, habandons⟩

end Flotilla.Status
