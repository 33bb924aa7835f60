import Flotilla.Status.Repeat.Bodies

/-!
# Patches applied twice

A writer that lost the answer to its write reads the status again and applies
its patch again.  With one exception, which appends to an audit trail, the
second time leaves the status exactly as it is.

* `Flow.status` : where a body ends, early or not.
* `Settles` : the body, from where it ended, ends there again.
* `apply_idem_of_live` : on a live status that is enough.
* `ConvoyStatusPatch.mutates` : the patch appends to the audit trail.
* `DistinctIds` : no crew member holds two promises with one id.
* `patch_apply_idem` : a patch applied twice is applied once.
-/

namespace Flotilla.Status

open Lib Std ConvoyStatus

/-! ### Bodies that may return early -/

/-- Where a body ends, early or not. -/
def Flow.status : Flow → ConvoyStatus
  | .error s | .ok s => s

variable (s : ConvoyStatus)

@[simp] theorem Flow.status_ok : Flow.status (.ok s) = s := rfl

@[simp] theorem Flow.status_error : Flow.status (.error s) = s := rfl

theorem Flow.status_refuseIf {c : Prop} [Decidable c] (f : Unit → Flow) :
    Flow.status (refuseIf c s >>= f) = if c then s else Flow.status (f ()) := by
  by_cases h : c
  · rw [refuseIf, if_pos h, if_pos h]
    rfl
  · rw [refuseIf_bind h, if_neg h]

theorem Flow.status_okOr_some {A : Type} (a : A) (s : ConvoyStatus) (f : A → Flow) :
    Flow.status (okOr (some a) s >>= f) = Flow.status (f a) := rfl

/-- From where it ended the body ends there again, unless it ended in a terminal status. -/
def Settles (body : ConvoyStatus → Flow) (s : ConvoyStatus) : Prop :=
  ∀ t, (body s).status = t → t.phase.isTerminal = false → (body t).status = t

theorem ConvoyStatus.clearTerminalStall_idem :
    s.clearTerminalStall.clearTerminalStall = s.clearTerminalStall := by
  rcases Bool.eq_false_or_eq_true s.phase.isTerminal with h | h
  · simp [clearTerminalStall, h]
  · rw [clearTerminalStall_of_live h, clearTerminalStall_of_live h]

namespace Settles

variable {s : ConvoyStatus} {f : ConvoyStatus → ConvoyStatus} {body : ConvoyStatus → Flow}

theorem pure (h : ∀ t, f s = t → t.phase.isTerminal = false → f t = t) :
    Settles (fun s => .ok (f s)) s :=
  h

theorem of_idem (h : Idem f s) : Settles (fun s => .ok (f s)) s :=
  pure fun _ ht _ => ht ▸ h

theorem of_terminal (h : (f s).phase.isTerminal = true) : Settles (fun s => .ok (f s)) s := by
  refine pure fun t ht hlive => ?_
  rw [← ht, h] at hlive
  cases hlive

/-- A refusal leaves the status as it is. -/
theorem refuseIf {c : ConvoyStatus → Prop} [∀ s, Decidable (c s)] (h : ¬ c s → Settles body s) :
    Settles (fun s => Lib.refuseIf (c s) s >>= fun _ => body s) s := by
  intro t ht hlive
  rw [Flow.status_refuseIf] at ht ⊢
  by_cases hc : c s
  · rw [if_pos hc] at ht
    rw [← ht, if_pos hc]
  · rw [if_neg hc] at ht
    rw [h hc t ht hlive, ite_self]

end Settles

namespace ConvoyStatus

variable {s : ConvoyStatus} {work vessel role sender target message prompt : String}
  {finishedAt at_ handedOffAt : DateTime}

theorem markWorkFailed_settles : Settles (fun s => s.markWorkFailed work finishedAt message) s :=
  Settles.refuseIf fun _ => Settles.pure fun _ ht _ =>
    modifyWork_again (s := s) (fun _ => rfl) (by rw [← ht])

theorem markWorkCancelled_settles : Settles (fun s => s.markWorkCancelled work finishedAt) s :=
  Settles.refuseIf fun _ => Settles.pure fun _ ht _ =>
    modifyWork_again (s := s) (fun _ => rfl) (by rw [← ht])

/-- Where everything before the entry into landing finds nothing to do. -/
theorem enterLanding_settled {t u v : ConvoyStatus}
    (hu : u.enterLandingIfCompletionClaimsSettled at_ = t)
    (hv : v = t) : v.enterLandingIfCompletionClaimsSettled at_ = t := by
  rw [hv, ← hu]
  exact enterLanding_again at_

theorem forceWorkCompleted_settles {message : Option String} :
    Settles (fun s => s.forceWorkCompleted work finishedAt message) s := by
  refine .refuseIf fun _ => Settles.pure fun t ht _ => ?_
  obtain ⟨_, _, _, hentered⟩ := enterLanding_eq (s.modifyWork work fun state => { state with
    phase := .complete
    completionAuthority := .humanOverride
    finishedAt := some (state.finishedAt.getD finishedAt)
    message }) finishedAt
  refine enterLanding_settled ht ?_
  refine modifyWork_again (s := s) (fun _ => rfl) ?_
  rw [← ht, hentered]

theorem restoredCrew_again {t previous : ConvoyStatus}
    (ht : t.crewWork = s.restoredCrew previous vessel role) :
    t.restoredCrew previous vessel role = t.crewWork := by
  unfold restoredCrew at ht ⊢
  cases hprior : previous.crewAt vessel role with
  | none => rfl
  | some prior =>
    rw [hprior] at ht
    rw [ht]
    refine BTreeMap.alter_idem (fun crew => ?_) _ _
    rw [Option.getD_some, BTreeMap.insert_eq_self ExtTreeMap.getElem?_insert_self]

theorem restoredWork_again {t activated previous : ConvoyStatus}
    (hcrew : t.crewWork = s.restoredCrew previous vessel role)
    (ht : t.work = s.restoredWork activated previous vessel role) :
    t.restoredWork activated previous vessel role = t.work := by
  have hsame := restoredCrew_again hcrew
  unfold restoredWork at ht ⊢
  rw [hsame, hcrew]
  by_cases hrestored : (s.restoredCrew previous vessel role)[vessel]? =
      previous.crewWork[vessel]? ∧ s.work[vessel]? = activated.work[vessel]?
  · rw [if_pos hrestored] at ht
    cases hprior : previous.work[vessel]? with
    | none => rw [ite_self]
    | some prior =>
      rw [hprior] at ht
      dsimp only at ht ⊢
      rw [ht, BTreeMap.insert_eq_self ExtTreeMap.getElem?_insert_self, ite_self]
  · rw [if_neg hrestored] at ht
    rw [ht, if_neg hrestored]

theorem restoreTurnActivation_settles {activated previous : ConvoyStatus} :
    Settles (restoreTurnActivation vessel role activated previous) s := by
  refine .refuseIf fun _ => Settles.pure fun t ht _ => ?_
  have htcrew : t.crewWork = s.restoredCrew previous vessel role := by rw [← ht]
  have htwork : t.work = s.restoredWork activated previous vessel role := by rw [← ht]
  have hcrew : t.restoredCrew previous vessel role = t.crewWork := restoredCrew_again htcrew
  have hwork : t.restoredWork activated previous vessel role = t.work :=
    restoredWork_again htcrew htwork
  rw [hcrew, hwork]
  rw [← htcrew, ← htwork] at ht
  -- The phase, the time and the stall are the previous ones, or none of the conditions changed.
  by_cases hwhole : t.work = previous.work ∧ t.crewWork = previous.crewWork ∧
      s.phase = activated.phase ∧ s.finishedAt = activated.finishedAt
  · rw [if_pos hwhole, if_pos hwhole] at ht
    have hphase : t.phase = previous.phase := by rw [← ht]
    have hfinished : t.finishedAt = previous.finishedAt := by rw [← ht]
    have hstalled : t.stalled =
        if s.stalled = activated.stalled then previous.stalled else s.stalled := by
      rw [← ht]
      simp [hwhole]
    rw [← hphase, ← hfinished, ite_self, ite_self]
    by_cases hsame : s.stalled = activated.stalled
    · rw [if_pos hsame] at hstalled
      rw [← hstalled, ite_self]
    · rw [if_neg hsame] at hstalled
      rw [if_neg fun h => hsame (hstalled ▸ h.2)]
  · rw [if_neg hwhole, if_neg hwhole, if_neg fun h => hwhole h.1] at ht
    have hagain : ¬ (t.work = previous.work ∧ t.crewWork = previous.crewWork ∧
        t.phase = activated.phase ∧ t.finishedAt = activated.finishedAt) := by
      have hphase : t.phase = s.phase := by rw [← ht]
      have hfinished : t.finishedAt = s.finishedAt := by rw [← ht]
      rw [hphase, hfinished]
      exact hwhole
    rw [if_neg hagain, if_neg hagain, if_neg fun h => hagain h.1]

theorem settle_settles {evidence : Option Stored} {disposition : String}
    {mismatches : List TargetMismatch} :
    Settles (fun s => s.settle evidence disposition mismatches finishedAt) s :=
  Settles.refuseIf fun _ => Settles.of_terminal rfl

theorem markConvoyAbandoned_settles {expectedPhase : ConvoyPhase}
    {authority : WorkCompletionAuthority} {reason : String} :
    Settles (fun s => s.markConvoyAbandoned expectedPhase finishedAt authority reason) s :=
  Settles.refuseIf fun _ => Settles.of_terminal rfl

section ClaimDone

variable {message disposition ref digest : Option String} {active : Bool}
  {forcedBy : Option PrincipalRef}

theorem claimDone_again (turn turn' : Option LandingTurn) (state : CrewWorkState) :
    claimDone finishedAt message disposition ref digest active forcedBy turn'
        (claimDone finishedAt message disposition ref digest active forcedBy turn state) =
      claimDone finishedAt message disposition ref digest active forcedBy turn state := by
  -- The claim stands with the disposition that was asked for, so it is not a new one.
  have hledger : ∀ x y : Option String, x.or (x.or y) = x.or y := by
    intro x y
    rw [← Option.or_assoc, Option.or_self]
  cases forcedBy with
  | none => cases disposition <;> simp [claimDone, hledger]
  | some principal =>
    by_cases hforced : ref.or state.decisionLedgerRef = none ∧
        digest.or state.decisionLedgerDigest = none
    · cases disposition <;> simp only [claimDone, hledger, if_pos hforced] <;> simp
    · cases disposition <;> simp only [claimDone, hledger, if_neg hforced] <;> simp

theorem markCrewCompleted_settles :
    Settles (fun s => s.markCrewCompleted vessel role finishedAt message disposition ref digest
      active forcedBy) s := by
  refine .refuseIf fun _ => Settles.pure fun t ht _ => ?_
  generalize hclaimed : (s.clearNudgeBudget vessel role).modifyCrew vessel role
    (claimDone finishedAt message disposition ref digest active forcedBy
      ((s.clearNudgeBudget vessel role).precedingTurn vessel role finishedAt)) = claimed at ht
  obtain ⟨stalled, hstall⟩ := clearStallForCrew_eq claimed vessel role
  obtain ⟨_, _, _, hentered⟩ :=
    enterLanding_eq (claimed.clearStallForCrew vessel role) finishedAt
  have hnudges : t.clearNudgeBudget vessel role = t := by
    refine clearNudgeBudget_again (s := s) ?_
    rw [← ht, hentered, hstall, ← hclaimed]
    rfl
  have hcrew : t.crewAt vessel role = (s.crewAt vessel role).map
      (claimDone finishedAt message disposition ref digest active forcedBy
        ((s.clearNudgeBudget vessel role).precedingTurn vessel role finishedAt)) := by
    have hcrewWork : t.crewAt vessel role = claimed.crewAt vessel role := by
      rw [← ht, hentered, hstall]
      rfl
    rw [hcrewWork, ← hclaimed]
    exact crewAt_modifyCrew vessel role _
  have hclaim : ∀ turn, t.modifyCrew vessel role (claimDone finishedAt message disposition ref
      digest active forcedBy turn) = t := by
    intro turn
    refine modifyCrew_eq_self fun state hstate => ?_
    rw [hcrew] at hstate
    obtain ⟨_, -, rfl⟩ := Option.map_eq_some_iff.mp hstate
    exact claimDone_again ..
  have hstalled : t.clearStallForCrew vessel role = t := by
    refine clearStallForCrew_again (s := claimed) ?_
    rw [← ht, hentered]
  refine enterLanding_settled ht ?_
  rw [hnudges, hclaim, hstalled]

end ClaimDone

theorem deriveCrewDone_settles {engine : Bool} :
    Settles (fun s => s.deriveCrewDone vessel role at_ engine) s := by
  refine .refuseIf fun _ => Settles.refuseIf fun _ => ?_
  intro t ht _
  dsimp only at ht ⊢
  cases hcrew : s.crewAt vessel role with
  | none =>
    rw [hcrew] at ht
    have hsame : s = t := ht
    rw [← hsame, hcrew]
    rfl
  | some state =>
    rw [hcrew, Flow.status_okOr_some, Flow.status_refuseIf] at ht
    by_cases hterminal : state.phase.isTerminal = true
    · rw [if_pos hterminal] at ht
      by_cases hderived : state.phase = .done ∧ state.completionAuthority = .promises
      · rw [if_pos hderived] at ht
        obtain ⟨_, _, _, hentered⟩ := enterLanding_eq s at_
        have hcrew' : t.crewAt vessel role = some state := by
          rw [← ht, hentered]
          exact hcrew
        rw [hcrew', Flow.status_okOr_some, Flow.status_refuseIf, if_pos hterminal, if_pos hderived]
        exact enterLanding_settled ht rfl
      · rw [if_neg hderived] at ht
        rw [← ht, hcrew, Flow.status_okOr_some, Flow.status_refuseIf, if_pos hterminal,
          if_neg hderived]
    · rw [if_neg hterminal] at ht
      generalize hdone : (s.modifyCrew vessel role fun state =>
        { state with
          phase := .done
          completionAuthority := .promises
          finishedAt := none
          message := none
          completionTurn := none
          completionRefusal := none }) = done at ht
      obtain ⟨stalled, hstall⟩ := clearStallForCrew_eq (done.clearNudgeBudget vessel role)
        vessel role
      obtain ⟨_, _, _, hentered⟩ := enterLanding_eq
        ((done.clearNudgeBudget vessel role).clearStallForCrew vessel role) at_
      obtain ⟨state', hcrew', hstate⟩ : ∃ state', t.crewAt vessel role = some state' ∧
          state'.phase = .done ∧ state'.completionAuthority = .promises := by
        have hcrewWork : t.crewAt vessel role = done.crewAt vessel role := by
          rw [← ht, hentered, hstall]
          rfl
        rw [hcrewWork, ← hdone, crewAt_modifyCrew, hcrew]
        exact ⟨_, rfl, rfl, rfl⟩
      rw [hcrew', Flow.status_okOr_some, Flow.status_refuseIf, if_pos (by rw [hstate.1]; rfl),
        if_pos hstate]
      exact enterLanding_settled ht rfl

theorem markCrewStalled_settles {convoy : String} {reason : StallReason}
    {disposition : Option StallProposedDisposition} :
    Settles (fun s => s.markCrewStalled convoy vessel role at_ reason disposition message) s := by
  refine .refuseIf fun _ => ?_
  intro t ht _
  rw [Flow.status_refuseIf] at ht ⊢
  by_cases hdone : ((s.clearNudgeBudget vessel role).crewAt vessel role).any (·.phase = .done) =
    true
  · rw [if_pos hdone] at ht
    have hsame : t.clearNudgeBudget vessel role = t :=
      clearNudgeBudget_again (by rw [← ht])
    rw [hsame, if_pos]
    rw [← ht]
    exact hdone
  · rw [if_neg hdone] at ht
    change ({ (s.clearNudgeBudget vessel role).modifyCrew vessel role _ with
      stalled := _ } : ConvoyStatus) = t at ht
    have hnudges : t.clearNudgeBudget vessel role = t :=
      clearNudgeBudget_again (by rw [← ht]; rfl)
    have hcrew : t.modifyCrew vessel role (fun state =>
        { state with phase := .stalled, finishedAt := none, message := some message }) = t :=
      modifyCrew_again (fun _ => rfl) (by rw [← ht])
    rw [hnudges]
    split
    case isTrue => rfl
    case isFalse =>
      change ({ t.modifyCrew vessel role _ with stalled := _ } : ConvoyStatus) = t
      rw [hcrew]
      conv_rhs => rw [← ht]
      rw [← ht]

/-! ### Resumed work -/

variable (sources : List String) (state : CrewWorkState)

/-- A released source is gone and the others stay. -/
theorem turnDeliveries_released (source : String) :
    (sources.foldl releaseSource s).turnDeliveries[source]? =
      if source ∈ sources then none else s.turnDeliveries[source]? := by
  induction sources generalizing s with
  | nil => simp
  | cons first sources ih =>
    rw [List.foldl_cons, ih]
    have hstep : (releaseSource s first).turnDeliveries[source]? =
        if first = source then none else s.turnDeliveries[source]? := by
      unfold releaseSource
      simp only [ExtTreeMap.getElem?_erase, Std.compare_eq_iff_eq]
    rw [hstep]
    by_cases hsource : source ∈ sources
    · simp [hsource]
    · by_cases hfirst : first = source
      · simp [hfirst]
      · simp [hsource, hfirst, Ne.symm hfirst]

/-- Once its sources are released, none is held for the crew member. -/
theorem heldSources_released (vessel role : String) :
    ∀ rule ∈ (s.workflowSnapshot.map (·.turnDelivery)).getD [],
      rule.2.target.vessel = vessel → rule.2.target.role = role →
      ((s.heldSources vessel role).foldl releaseSource s).turnDeliveries[rule.1]?.any
        (fun d => (d.held rule.1).isSome) = false := by
  intro rule hrule hvessel hrole
  rw [turnDeliveries_released]
  by_cases hmem : rule.1 ∈ s.heldSources vessel role
  · rw [if_pos hmem]
    rfl
  · rw [if_neg hmem]
    by_contra hheld
    refine hmem (List.mem_filterMap.mpr ⟨rule, hrule, ?_⟩)
    rw [if_pos ⟨hvessel, hrole, by simpa using hheld⟩]

/-- Releasing changes the deliveries and the attention only. -/
theorem released_eq : ∃ turnDeliveries attention,
    sources.foldl releaseSource s = { s with turnDeliveries, attention } := by
  induction sources generalizing s with
  | nil => exact ⟨s.turnDeliveries, s.attention, rfl⟩
  | cons first sources ih =>
    obtain ⟨turnDeliveries, attention, h⟩ := ih
    exact ⟨turnDeliveries, attention, h⟩

/-- Dropping a pending brief does not change whether a source is held. -/
theorem held_clearPendingBriefFor (vessel role source : String)
    (h : s.turnDeliveries[source]?.any (fun d => (d.held source).isSome) = false) :
    (s.clearPendingBriefFor vessel role).turnDeliveries[source]?.any
      (fun d => (d.held source).isSome) = false := by
  unfold clearPendingBriefFor
  split
  case isFalse => exact h
  case isTrue =>
    unfold clearOperatorPendingBrief
    rw [ExtTreeMap.getElem?_alter]
    split
    case isFalse => exact h
    case isTrue heq =>
      rw [Std.compare_eq_iff_eq.mp heq]
      cases hd : s.turnDeliveries[source]? with
      | none => rfl
      | some d =>
        rw [hd] at h
        by_cases hepisodes : d.episodes = []
        · simp [hepisodes]
        · simpa [hepisodes, TurnDeliveryStatus.held] using h

theorem resumeCrewWork_settles {intent : ResumeIntent} {resumedAt : DateTime}
    {briefId : Option String} :
    Settles (fun s => s.resumeCrewWork intent vessel role resumedAt prompt briefId) s := by
  refine .refuseIf fun _ => Settles.pure fun t ht _ => ?_
  have hnone := heldSources_released (s := s) vessel role
  obtain ⟨turnDeliveries, attention, hreleased⟩ :=
    released_eq (s.heldSources vessel role)
  rw [hreleased] at ht hnone
  obtain ⟨u, hu⟩ : ∃ u, { (({ s with
      turnDeliveries, attention, phase := .active, finishedAt := none } : ConvoyStatus).modifyWork
        vessel reopenWork).modifyCrew vessel role (resumeCrew resumedAt prompt briefId) with
      stalled := none } = u := ⟨_, rfl⟩
  have hut : u.clearPendingBriefFor vessel role = t := by
    rw [← hu]
    exact ht
  obtain ⟨cleared, hcleared⟩ := clearPendingBriefFor_eq u vessel role
  have hsources : t.heldSources vessel role = [] := by
    have hsnapshot : t.workflowSnapshot = s.workflowSnapshot := by rw [← hut, hcleared, ← hu]; rfl
    unfold heldSources
    rw [hsnapshot, List.filterMap_eq_nil_iff]
    intro rule hrule
    rw [if_neg]
    rintro ⟨hvessel, hrole, hheld⟩
    have hfree : u.turnDeliveries[rule.1]?.any (fun d => (d.held rule.1).isSome) = false := by
      rw [← hu]
      exact hnone rule hrule hvessel hrole
    rw [← hut, held_clearPendingBriefFor vessel role rule.1 hfree] at hheld
    cases hheld
  have hphase : t.phase = .active := by rw [← hut, hcleared, ← hu]; rfl
  have hfinished : t.finishedAt = none := by rw [← hut, hcleared, ← hu]; rfl
  have hstalled : t.stalled = none := by rw [← hut, hcleared, ← hu]
  have hactive : { t with phase := .active, finishedAt := none } = t := by
    rw [← hphase, ← hfinished]
  have hwork : t.modifyWork vessel reopenWork = t :=
    modifyWork_again (fun _ => rfl) (by rw [← hut, hcleared, ← hu]; rfl)
  have hcrew : t.modifyCrew vessel role (resumeCrew resumedAt prompt briefId) = t :=
    modifyCrew_again (s := s) (fun _ => rfl) (by rw [← hut, hcleared, ← hu]; rfl)
  have hstall : { t with stalled := none } = t := by rw [← hstalled]
  rw [hsources, List.foldl_nil, hactive, hwork, hcrew, hstall]
  exact clearPendingBriefFor_again (by rw [← hut])

/-- What a nested resumption makes of the crew member. -/
theorem crewAt_resumed (hs : s.phase.isTerminal = false) (vessel role : String)
    (resumedAt : DateTime) (prompt : String) (briefId : Option String) :
    (s.guarded false fun s => s.resumeCrewWork .reopen vessel role resumedAt prompt
        briefId).crewAt vessel role =
      (s.crewAt vessel role).map (resumeCrew resumedAt prompt briefId) := by
  obtain ⟨u, hu, hphase, hcrew⟩ : ∃ u : ConvoyStatus, s.resumeCrewWork .reopen vessel role
      resumedAt prompt briefId = .ok (u.clearPendingBriefFor vessel role) ∧ u.phase = .active ∧
        u.crewWork = (s.modifyCrew vessel role (resumeCrew resumedAt prompt briefId)).crewWork := by
    obtain ⟨turnDeliveries, attention, hreleased⟩ :=
      released_eq (s.heldSources vessel role)
    refine ⟨_, rfl, rfl, ?_⟩
    rw [hreleased]
    rfl
  obtain ⟨turnDeliveries, hcleared⟩ := clearPendingBriefFor_eq u vessel role
  have hlive : (u.clearPendingBriefFor vessel role).phase.isTerminal = false := by
    rw [hcleared]
    exact congrArg ConvoyPhase.isTerminal hphase
  rw [guarded_of_live hs hu hlive, ← crewAt_modifyCrew, hcleared]
  unfold crewAt
  rw [hcrew]

theorem beginMessageFollowUp_settles (hs : s.phase.isTerminal = false) {message : ResourceRef}
    {content : String} {claim : SupersededCrewClaim} :
    Settles (fun s => s.beginMessageFollowUp vessel role message content claim) s := by
  intro t ht _
  unfold beginMessageFollowUp at ht ⊢
  rw [Flow.status_refuseIf] at ht ⊢
  by_cases hother : (s.crewAt vessel role).all (fun state =>
      state.pendingFollowUp ≠ some message) = true
  · rw [if_pos hother] at ht
    rw [← ht, if_pos hother]
  · rw [if_neg hother] at ht
    -- The resumed crew member has no follow-up pending any more.
    rw [if_pos]
    have hlive : (s.modifyCrew vessel role fun state =>
      { state with supersededClaims := state.supersededClaims ++ [claim] }).phase.isTerminal =
        false := hs
    have hresumed := crewAt_resumed hlive vessel role claim.claimedAt content (some message.name)
    rw [← ht]
    change (crewAt (modifyCrew _ vessel role dropClaim) vessel role).all
      _ = true
    rw [crewAt_modifyCrew, hresumed, crewAt_modifyCrew]
    cases s.crewAt vessel role with
    | none => rfl
    | some state => simp [dropClaim, resumeCrew]

theorem recordTurnDelivery_settles {source : String} {episode : TurnDeliveryEpisode} :
    Settles (fun s => s.recordTurnDelivery source episode vessel role prompt) s := by
  intro t ht _
  unfold recordTurnDelivery at ht ⊢
  rw [Flow.status_refuseIf] at ht ⊢
  generalize hrecorded : s.modifyDelivery source (fun d =>
    TurnDeliveryStatus.recordEpisode { d with failure := none, hold := none } episode) =
      recorded at ht
  have hdelivery : t.turnDeliveries = recorded.turnDeliveries → t.modifyDelivery source (fun d =>
      TurnDeliveryStatus.recordEpisode { d with failure := none, hold := none } episode) = t := by
    rw [← hrecorded]
    refine recordEpisode_settles (fun d => { d with failure := none, hold := none }) fun d => ?_
    unfold TurnDeliveryStatus.recordEpisode
    split <;> rfl
  by_cases hsuppressed : episode.outcome.suppressed = true
  · rw [if_pos hsuppressed] at ht ⊢
    rw [hdelivery (by rw [← ht])]
    have hattention : t.attention =
        if s.attention.any (·.source = source) then none else s.attention := by rw [← ht]
    have hsame : (if t.attention.any (·.source = source) then none else t.attention) =
        t.attention := by
      rw [hattention]
      by_cases hsource : s.attention.any (·.source = source) = true <;> simp [hsource]
    rw [hsame]
  · rw [if_neg hsuppressed] at ht ⊢
    have hdelivered : { (({ recorded with attention := none } : ConvoyStatus).modifyWork vessel
        reopenWork).modifyCrew vessel role (deliverTurn prompt) with
        phase := .active, finishedAt := none } = t := ht
    rw [hdelivery (by rw [← hdelivered]; rfl)]
    have hattention : { t with attention := none } = t := by rw [← hdelivered]; rfl
    have hwork : t.modifyWork vessel reopenWork = t :=
      modifyWork_again (fun _ => rfl) (by rw [← hdelivered]; rfl)
    have hcrew : t.modifyCrew vessel role (deliverTurn prompt) = t :=
      modifyCrew_again (s := recorded) (fun _ => rfl) (by rw [← hdelivered]; rfl)
    rw [hattention, hwork, hcrew]
    have hactive : { t with phase := .active, finishedAt := none } = t := by
      rw [← hdelivered]
    exact hactive

/-! ### Handed work -/

theorem handoff_eq (s : ConvoyStatus) (vessel sender target : String) :
    ∃ promises, s.handoff vessel sender target = { s with promises } := by
  unfold handoff
  repeat' split
  all_goals first | exact ⟨s.promises, rfl⟩ | exact ⟨_, rfl⟩

/-- After a handoff the sender holds nothing that is open. -/
theorem handoff_again {t : ConvoyStatus}
    (ht : t.promises = (s.handoff vessel sender target).promises) :
    t.handoff vessel sender target = t := by
  by_cases hsame : sender = target
  · rw [handoff, if_pos hsame]
  unfold handoff at ht ⊢
  rw [if_neg hsame] at ht ⊢
  cases hcrew : s.promises[vessel]? with
  | none =>
    rw [hcrew] at ht
    rw [ht, hcrew]
  | some crew =>
    cases hheld : crew[sender]? with
    | none =>
      simp only [ht, hcrew, hheld]
    | some promises =>
      simp only [hcrew, hheld] at ht
      generalize hmoved : (promises.filter (!·.state.terminal)).foldl (moveTo sender target)
        ((crew.insert sender (promises.filter (·.state.terminal)))[target]?.getD []) = moved at ht
      have hvessel : t.promises[vessel]? = some ((crew.insert sender
          (promises.filter (·.state.terminal))).insert target moved) := by
        rw [ht, ExtTreeMap.getElem?_insert_self]
      have hsender : ((crew.insert sender (promises.filter (·.state.terminal))).insert target
          moved)[sender]? = some (promises.filter (·.state.terminal)) := by
        rw [ExtTreeMap.getElem?_insert, if_neg (by simpa using Ne.symm hsame),
          ExtTreeMap.getElem?_insert_self]
      have htarget : ((crew.insert sender (promises.filter (·.state.terminal))).insert target
          moved)[target]? = some moved := ExtTreeMap.getElem?_insert_self
      generalize (crew.insert sender (promises.filter (·.state.terminal))).insert target moved =
        after at hvessel hsender htarget
      have hsettled : (promises.filter (·.state.terminal)).filter (·.state.terminal) =
          promises.filter (·.state.terminal) := by
        simp
      have hmoving : (promises.filter (·.state.terminal)).filter (!·.state.terminal) = [] := by
        simp
      simp only [hvessel, hsender]
      rw [hsettled, hmoving, BTreeMap.insert_eq_self hsender, htarget, List.foldl_nil,
        Option.getD_some, BTreeMap.insert_eq_self htarget, BTreeMap.insert_eq_self hvessel]

theorem crewAt_modifyCrew_other {other : String} (h : other ≠ role)
    (f : CrewWorkState → CrewWorkState) :
    (s.modifyCrew vessel other f).crewAt vessel role = s.crewAt vessel role := by
  unfold modifyCrew crewAt
  rw [ExtTreeMap.getElem?_modify_self]
  cases s.crewWork[vessel]? with
  | none => rfl
  | some crew =>
    simp [ExtTreeMap.getElem?_modify, h]

theorem takeOver_again : Idem (takeOver handedOffAt message) state := by
  by_cases h : state.phase = .pending ∨ state.phase = .done ∨ state.phase = .handedBack <;>
    simp [Idem, takeOver, h]

theorem takeOver_not_done : (takeOver handedOffAt message state).phase ≠ .done := by
  unfold takeOver
  split
  case isTrue => exact nofun
  case isFalse h => exact fun hdone => h (.inr (.inl hdone))

theorem mem_crew_modifyCrew (vessel role target : String) (f : CrewWorkState → CrewWorkState) :
    (s.modifyCrew vessel role f).crewWork[vessel]?.any (target ∈ ·) =
      s.crewWork[vessel]?.any (target ∈ ·) := by
  unfold modifyCrew
  rw [ExtTreeMap.getElem?_modify_self]
  cases s.crewWork[vessel]? with
  | none => rfl
  | some crew => simp [ExtTreeMap.mem_modify]

/-- What a handoff leaves: everything but the two members and the promises is as it was. -/
structure HandedOver (s t handed : ConvoyStatus) (vessel target : String) (handedOffAt : DateTime)
    (message : String) : Prop where
  promises : t.promises = handed.promises
  work : t.work = (handed.modifyWork vessel fun work =>
    { work with completionAuthority := .crewRollup }).work
  crew : t.crewWork[vessel]?.any (target ∈ ·) = s.crewWork[vessel]?.any (target ∈ ·)
  target : t.crewAt vessel target = (s.crewAt vessel target).map (takeOver handedOffAt message)

theorem handedOver_of_status {t handed : ConvoyStatus}
    (hhanded : (if s.crewWork[vessel]?.any (target ∈ ·) then s.handoff vessel sender target
      else s) = handed)
    (ht : (s.handoffCrewWork vessel sender target handedOffAt message).status = t) :
    HandedOver s t handed vessel target handedOffAt message := by
  have hcrewWork : handed.crewWork = s.crewWork := by
    obtain ⟨promises, hpromises⟩ := handoff_eq s vessel sender target
    rw [← hhanded]
    split
    case isTrue => rw [hpromises]
    case isFalse => rfl
  unfold handoffCrewWork at ht
  rw [hhanded] at ht
  dsimp only at ht
  generalize hbase : (handed.modifyWork vessel fun work =>
    { work with completionAuthority := .crewRollup }) = base at ht
  have hbaseCrew : base.crewWork = s.crewWork := by
    rw [← hbase]
    exact hcrewWork
  have hbasePromises : base.promises = handed.promises := by
    rw [← hbase]
    rfl
  have hbaseAt : ∀ role, base.crewAt vessel role = s.crewAt vessel role := by
    intro role
    unfold crewAt
    rw [hbaseCrew]
  rw [hbaseCrew] at ht
  cases hcrew : s.crewWork[vessel]? with
  | none =>
    rw [hcrew] at ht
    have hsame : base = t := ht
    rw [← hsame]
    refine ⟨hbasePromises, by rw [hbase], by rw [hbaseCrew], ?_⟩
    rw [hbaseAt]
    simp [crewAt, hcrew]
  | some crew =>
    rw [hcrew, Flow.status_okOr_some] at ht
    change (if _ then _ else _) = t at ht
    split at ht
    case isTrue hsender =>
      obtain ⟨turnDeliveries, hcleared⟩ := clearPendingBriefFor_eq
        ((base.modifyCrew vessel target (takeOver handedOffAt message)).modifyCrew vessel sender
          fun sender => { sender with
            phase := .handedBack
            finishedAt := some handedOffAt
            message := some message }) vessel sender
      rw [hcleared] at ht
      rw [← ht]
      refine ⟨hbasePromises, by rw [hbase]; rfl, ?_, ?_⟩
      · refine (mem_crew_modifyCrew vessel sender target _).trans
          ((mem_crew_modifyCrew vessel target target _).trans ?_)
        rw [hbaseCrew]
      · refine (crewAt_modifyCrew_other hsender.2 _).trans
          ((crewAt_modifyCrew vessel target _).trans ?_)
        rw [hbaseAt]
    case isFalse =>
      rw [← ht]
      refine ⟨hbasePromises, by rw [hbase]; rfl, ?_, ?_⟩
      · rw [mem_crew_modifyCrew, hbaseCrew]
      · rw [crewAt_modifyCrew, hbaseAt]

theorem handoffCrewWork_settles :
    Settles (fun s => s.handoffCrewWork vessel sender target handedOffAt message) s := by
  intro t ht _
  generalize hhanded : (if s.crewWork[vessel]?.any (target ∈ ·) then
    s.handoff vessel sender target else s) = handed
  obtain ⟨hpromises, hwork, hcrew, htarget⟩ := handedOver_of_status hhanded ht
  have hhanded' : (if t.crewWork[vessel]?.any (target ∈ ·) then t.handoff vessel sender target
      else t) = t := by
    rw [hcrew]
    split
    case isTrue h =>
      rw [if_pos h] at hhanded
      exact handoff_again (by rw [hpromises, hhanded])
    case isFalse => rfl
  have hwork' : t.modifyWork vessel (fun work => { work with completionAuthority := .crewRollup }) =
      t := modifyWork_again (fun _ => rfl) hwork
  have htaken : t.modifyCrew vessel target (takeOver handedOffAt message) = t := by
    refine modifyCrew_eq_self fun state hstate => ?_
    rw [htarget] at hstate
    obtain ⟨before, -, rfl⟩ := Option.map_eq_some_iff.mp hstate
    exact takeOver_again before
  dsimp only
  unfold handoffCrewWork
  rw [hhanded']
  dsimp only
  rw [hwork']
  cases hmembers : t.crewWork[vessel]? with
  | none => rfl
  | some crew =>
    -- The target was taken over, so it is not done.
    have hnot : crew[target]?.any (·.phase = .done) = false := by
      have hat : crew[target]? = (s.crewAt vessel target).map (takeOver handedOffAt message) := by
        rw [← htarget]
        unfold crewAt
        rw [hmembers]
        rfl
      rw [hat]
      cases s.crewAt vessel target with
      | none => rfl
      | some state => simpa using takeOver_not_done state
    rw [Flow.status_okOr_some, hnot, htaken, if_neg fun h => Bool.false_ne_true h.1]
    rfl

theorem promise_settles {names : Spelling} (hids : ((s.owned vessel role).map Promise.id).Nodup)
    (operation : PromiseOperation) :
    Settles (fun s => .ok (s.promise names vessel role operation)) s := by
  refine .pure fun t ht _ => ?_
  unfold promise at ht ⊢
  split at ht
  case isTrue => rw [← ht, applyPromise_idem names hids operation, ite_self]
  case isFalse hdone => rw [← ht, if_neg hdone]

end ConvoyStatus

/-! ### Every patch -/

/-- No crew member holds two promises with one id. -/
def DistinctIds (s : ConvoyStatus) : Prop :=
  ∀ vessel role, ((s.owned vessel role).map Promise.id).Nodup

/-- What every run of promise operations keeps is enough. -/
theorem Sound.distinctIds {s : ConvoyStatus} (h : Sound s) : DistinctIds s :=
  fun vessel role => (h vessel role).distinct

namespace ConvoyStatusPatch

variable {names : Spelling} {s : ConvoyStatus} {patch : ConvoyStatusPatch}

/-- The patch, or the transition inside a landing event, appends to the audit trail. -/
def mutates : ConvoyStatusPatch → Bool
  | .recordLifecycleMutation _ => true
  | .recordLandingEvent (some transition) => transition.mutates
  | _ => false

/-- Where a patch ends on a live status that it leaves live. -/
theorem apply_of_live (hs : s.phase.isTerminal = false)
    (h : (patch.body names s).status.phase.isTerminal = false) :
    patch.apply names s = (patch.body names s).status := by
  unfold apply guarded
  rw [hs, Bool.false_and, if_neg Bool.false_ne_true]
  cases hbody : patch.body names s with
  | error returned => rfl
  | ok reached =>
    rw [hbody] at h
    exact clearTerminalStall_of_live h

theorem status_phase_of_live (hs : s.phase.isTerminal = false) :
    (patch.body names s).status.phase = (patch.apply names s).phase := by
  unfold apply guarded
  rw [hs, Bool.false_and, if_neg Bool.false_ne_true]
  cases patch.body names s with
  | error returned => rfl
  | ok reached => exact (settled_clearTerminalStall reached).phase.symm

/-- On a live status it is enough that the body settles, if a terminal result is guarded. -/
theorem apply_idem_of_live (hs : s.phase.isTerminal = false)
    (hguarded : (patch.apply names s).phase.isTerminal = true →
      patch.exempt (patch.apply names s) = false)
    (hbody : Settles (patch.body names) s) : Idem (patch.apply names) s := by
  rcases Bool.eq_false_or_eq_true (patch.apply names s).phase.isTerminal with hterminal | hlive
  · exact apply_of_not_exempt hterminal (hguarded hterminal)
  · have hstatus : (patch.body names s).status.phase.isTerminal = false := by
      rw [status_phase_of_live hs]
      exact hlive
    have hstep := apply_of_live hs hstatus
    have hagain := hbody _ hstep.symm hlive
    rw [Idem, apply_of_live hlive (by rw [hagain]; exact hlive), hagain]

/-- A patch that every status takes, whose change does not meet the stall condition. -/
theorem apply_idem_of_exempt {f : ConvoyStatus → ConvoyStatus}
    (hexempt : ∀ s, patch.exempt s = true)
    (hbody : ∀ s, patch.body names s = .ok (f s)) (hf : ∀ s, Idem f s)
    (hphase : ∀ s, (f s).phase = s.phase)
    (hstalled : ∀ s, s.phase.isTerminal = true →
      f { s with stalled := none } = { f s with stalled := none }) :
    Idem (patch.apply names) s := by
  have hclear : ∀ s, f s.clearTerminalStall = (f s).clearTerminalStall := by
    intro s
    have hsame : (f s).phase.isTerminal = s.phase.isTerminal := by rw [hphase]
    rcases Bool.eq_false_or_eq_true s.phase.isTerminal with h | h
    · rw [clearTerminalStall, if_pos h, clearTerminalStall,
        if_pos (hsame.trans h)]
      exact hstalled s h
    · rw [clearTerminalStall_of_live h,
        clearTerminalStall_of_live (hsame.trans h)]
  rw [Idem, apply_of_exempt (hexempt s) (hbody s), apply_of_exempt (hexempt _) (hbody _),
    hclear, hf, clearTerminalStall_idem]

theorem exempt_congr {t : ConvoyStatus} (h : s.phase = t.phase) (patch : ConvoyStatusPatch) :
    patch.exempt s = patch.exempt t := by
  cases patch with
  | markConvoyAbandoned expectedPhase => simp only [exempt, h]
  | _ => rfl

theorem markConvoyAbandoned_idem {expectedPhase : ConvoyPhase} {finishedAt : DateTime}
    {authority : WorkCompletionAuthority} {reason : String}
    (hpatch : patch = markConvoyAbandoned expectedPhase finishedAt authority reason) :
    Idem (patch.apply names) s := by
  by_cases hphase : expectedPhase = s.phase ∧ s.phase ≠ .abandoned
  · have habandoned : (patch.apply names s).phase = .abandoned := by
      rw [hpatch]
      exact apply_abandoned hphase.1 hphase.2
    refine apply_of_not_exempt (by rw [habandoned]; rfl) ?_
    rw [hpatch] at habandoned ⊢
    simp [exempt, habandoned]
  · have hexempt : patch.exempt s = false := by simpa [hpatch, exempt] using hphase
    rcases Bool.eq_false_or_eq_true s.phase.isTerminal with hterminal | hlive
    · exact .of_eq_self (apply_of_not_exempt hterminal hexempt)
    · -- A live convoy is in another phase than the one expected, so the abandon is refused.
      have hother : s.phase ≠ expectedPhase := by
        rintro rfl
        exact hphase ⟨rfl, fun h => by rw [h] at hlive; cases hlive⟩
      have hbody : patch.body names s = .error s := by
        simp only [hpatch, body, ConvoyStatus.markConvoyAbandoned, refuseIf, if_pos hother]
        rfl
      refine .of_eq_self ?_
      rw [apply_of_live hlive (by rw [hbody]; exact hlive), hbody]
      rfl

/-- The body of a patch that a terminal status takes reaches its end. -/
theorem body_of_exempt (names : Spelling) (h : patch.exempt s = true) :
    ∃ reached, patch.body names s = .ok reached := by
  cases patch with
  | observeEnvironment | recordLifecycleMutation | setStalled | setTeardownWait
  | observeQueuedTurnDeliveries => exact ⟨_, rfl⟩
  | recordLandingEvent transition =>
    cases transition with
    | none => exact ⟨_, by simp only [body]; rfl⟩
    | some transition => exact ⟨_, by simp only [body]; rfl⟩
  | markConvoyAbandoned expectedPhase =>
    have hphase : expectedPhase = s.phase := by
      simp only [exempt, Bool.and_eq_true, decide_eq_true_eq] at h
      exact h.1
    simp only [body, ConvoyStatus.markConvoyAbandoned]
    rw [refuseIf_bind (by simp [hphase])]
    exact ⟨_, rfl⟩
  | _ => cases h

/-- What a patch leaves in a terminal status has no stall condition,
unless the patch was guarded. -/
theorem apply_clearTerminalStall (h : s.phase.isTerminal = false ∨ patch.exempt s = true) :
    (patch.apply names s).clearTerminalStall = patch.apply names s := by
  rcases Bool.eq_false_or_eq_true (patch.apply names s).phase.isTerminal with hterminal | hlive
  · rcases h with hs | hexempt
    · have hstalled := apply_stalled hs hterminal
      unfold clearTerminalStall
      rw [if_pos hterminal, ← hstalled]
    · obtain ⟨reached, hbody⟩ := body_of_exempt names hexempt
      rw [apply_of_exempt hexempt hbody, clearTerminalStall_idem]
  · exact clearTerminalStall_of_live hlive

theorem landingEvent_idem {transition : ConvoyStatusPatch}
    (ih : Idem (transition.apply names) s) :
    Idem ((recordLandingEvent (some transition)).apply names) s := by
  unfold Idem at ih ⊢
  rw [apply_landingEvent, apply_landingEvent]
  by_cases hmet : s.phase.isTerminal = false ∨ transition.exempt s = true
  · -- The transition meets what it left, with the note.
    have hmark : (transition.apply names s).markEventEmitted.clearTerminalStall =
        (transition.apply names s).markEventEmitted := by
      rw [← clearTerminalStall_markEventEmitted, apply_clearTerminalStall hmet]
    rw [hmark, markEventEmitted_apply, ih, hmark]
  · -- The transition was guarded, and is again.
    rw [not_or, Bool.not_eq_false, Bool.not_eq_true] at hmet
    have hphase : s.markEventEmitted.clearTerminalStall.phase = s.phase :=
      (settled_clearTerminalStall _).phase
    rw [apply_of_not_exempt hmet.1 hmet.2,
      apply_of_not_exempt (by rw [hphase]; exact hmet.1)
        (by rw [exempt_congr hphase transition]; exact hmet.2),
      clearTerminalStall_markEventEmitted, markEventEmitted_idem,
      clearTerminalStall_idem]

theorem observeQueued_clearStall (observations : List QueuedTurnObservation)
    (observedAt : DateTime) (s : ConvoyStatus) :
    { s with stalled := none }.observeQueuedTurnDeliveries names observations observedAt =
      { s.observeQueuedTurnDeliveries names observations observedAt with stalled := none } := by
  simp only [ConvoyStatus.observeQueuedTurnDeliveries, foldl_observeQueuedTurn]
  split <;> rfl

/-- The bodies of the patches that only a live status takes settle. -/
theorem body_settles (hs : s.phase.isTerminal = false) (hids : DistinctIds s)
    (hpatch : ∀ s, patch.exempt s = false) : Settles (patch.body names) s := by
  cases patch with
  | recordLifecycleMutation | observeEnvironment | setStalled | setTeardownWait
  | observeQueuedTurnDeliveries | recordLandingEvent => cases hpatch s
  | markConvoyAbandoned => exact markConvoyAbandoned_settles
  | promise vessel role operation => exact promise_settles (hids vessel role) operation
  | observePromise vessel role operation =>
    exact .of_idem (applyPromise_idem names (hids vessel role) operation)
  | holdTurnDelivery => exact .of_idem (holdTurnDelivery_idem ..)
  | restoreTurnActivation => exact restoreTurnActivation_settles
  | recordNaming | recordEnsureAdmission | handPromisesToEngine | recordBranchSubjectScan
  | recordBranchSubjectScanFailure | setNudgeObligations | setPlacementDecision
  | setSettlementAttention => exact .of_idem rfl
  | discoverSubjects => exact .of_idem (discoverSubjects_idem ..)
  | unlinkSubject => exact .of_idem (unlinkSubject_idem ..)
  | bootstrap => exact .of_idem (bootstrap_idem hs ..)
  | backfillCrewWork => exact .of_idem (backfillCrewWork_idem ..)
  | failInit phase message finishedAt =>
    refine .pure fun t ht hlive => ?_
    have hphase : t.phase = phase := by
      rw [← ht, ConvoyStatus.failInit]
      split <;> rfl
    rw [← ht]
    exact failInit_idem (hphase ▸ hlive)
  | advanceWorkToReady => exact .of_idem (advanceWorkToReady_idem ..)
  | failConvoy => exact .of_terminal rfl
  | rollUpPhase phase startedAt finishedAt =>
    refine .pure fun t ht hlive => ?_
    have hphase : t.phase = phase := by
      rw [← ht]
      unfold ConvoyStatus.rollUpPhase
      dsimp only
      split <;> rfl
    rw [← ht]
    exact rollUpPhase_idem (hphase ▸ hlive)
  | settle => exact settle_settles
  | observeTurnHookHealth => exact .of_idem (observeTurnHookHealth_idem ..)
  | queueSupervisorTurn => exact .of_idem (queueSupervisorTurn_idem ..)
  | acknowledgeSupervisorTurn => exact .of_idem (acknowledgeSupervisorTurn_idem ..)
  | workLaunching => exact .of_idem (workLaunching_idem ..)
  | workRunning => exact .of_idem (workRunning_idem ..)
  | workProvisioningRetry => exact .of_idem (workProvisioningRetry_idem hs ..)
  | workInterrupted => exact .of_idem (workInterrupted_idem ..)
  | forceWorkCompleted => exact forceWorkCompleted_settles
  | markWorkFailed => exact markWorkFailed_settles
  | markWorkCancelled => exact markWorkCancelled_settles
  | deriveCrewDone => exact deriveCrewDone_settles
  | markCrewCompleted => exact markCrewCompleted_settles
  | markCrewFailed => exact .of_idem (markCrewFailed_idem ..)
  | markCrewStalled => exact markCrewStalled_settles
  | handoffCrewWork => exact handoffCrewWork_settles
  | resumeCrewWork => exact resumeCrewWork_settles
  | queueMessageFollowUp vessel role message =>
    exact .pure fun t ht _ =>
      modifyCrew_again (s := s) (fun _ => rfl) (by rw [← ht])
  | beginMessageFollowUp => exact beginMessageFollowUp_settles hs
  | recordTurnDelivery => exact recordTurnDelivery_settles
  | failTurnDelivery => exact .of_idem (failTurnDelivery_idem ..)
  | refuseTurnDelivery => exact .of_idem (refuseTurnDelivery_idem ..)
  | rollUpWork => exact .of_idem (rollUpWork_idem ..)

/-- A patch that only a live status takes. -/
theorem apply_idem_of_not_exempt (hids : DistinctIds s)
    (hpatch : ∀ s, patch.exempt s = false) : Idem (patch.apply names) s := by
  rcases Bool.eq_false_or_eq_true s.phase.isTerminal with hterminal | hlive
  · exact .of_eq_self (apply_of_not_exempt hterminal (hpatch s))
  · exact apply_idem_of_live hlive (fun _ => hpatch _) (body_settles hlive hids hpatch)

end ConvoyStatusPatch

/-- **A patch applied twice is applied once**, on every status whose crew members hold promises with
distinct ids, unless it appends to the audit trail. -/
theorem patch_apply_idem (names : Spelling) {s : ConvoyStatus} (hids : DistinctIds s) :
    ∀ patch : ConvoyStatusPatch, patch.mutates = false →
      patch.apply names (patch.apply names s) = patch.apply names s
  | patch, h => by
    cases patch with
    | recordLifecycleMutation => cases h
    | recordLandingEvent transition =>
      cases transition with
      | none =>
        exact ConvoyStatusPatch.apply_idem_of_exempt (fun _ => rfl)
          (fun _ => by simp only [ConvoyStatusPatch.body]; rfl) markEventEmitted_idem
          (fun _ => rfl) fun _ _ => rfl
      | some transition =>
        -- The nested patch is applied as it would be alone, and the note is not read.
        exact ConvoyStatusPatch.landingEvent_idem (patch_apply_idem names hids transition h)
    | observeEnvironment vessel observation =>
      exact ConvoyStatusPatch.apply_idem_of_exempt (fun _ => rfl) (fun _ => rfl)
        (fun _ => observeEnvironment_idem vessel observation) (fun _ => rfl) fun _ _ => rfl
    | setTeardownWait =>
      exact ConvoyStatusPatch.apply_idem_of_exempt (fun _ => rfl) (fun _ => rfl) (fun _ => rfl)
        (fun _ => rfl) fun _ _ => rfl
    | setStalled =>
      exact ConvoyStatusPatch.apply_idem_of_exempt (fun _ => rfl) (fun _ => rfl) (fun _ => rfl)
        (fun _ => rfl) fun s h => by simp [setStalled, h]
    | observeQueuedTurnDeliveries observations observedAt =>
      exact ConvoyStatusPatch.apply_idem_of_exempt (fun _ => rfl) (fun _ => rfl)
        (fun _ => observeQueuedTurnDeliveries_idem names observations observedAt)
        (fun s => (settled_observeQueuedTurnDeliveries s names observations observedAt).phase)
        fun s _ => ConvoyStatusPatch.observeQueued_clearStall observations observedAt s
    | markConvoyAbandoned => exact ConvoyStatusPatch.markConvoyAbandoned_idem rfl
    | _ => exact ConvoyStatusPatch.apply_idem_of_not_exempt hids fun _ => rfl

/-- A crew member whose default promise is open. -/
def openDelivery : ConvoyStatus :=
  ConvoyStatus.modifyOwned { phase := .active } "ship" "dev" fun _ =>
    [⟨"template/pr", "ship", "dev", .template, .pr, .isOpen, none, []⟩]

/-- A change request that is submitted twice, for a promise of its own and for the default one. -/
theorem patch_apply_idem_submission :
    DistinctIds openDelivery ∧
      (ConvoyStatusPatch.promise "ship" "dev" (.submit "own" .pr .crew ⟨"#7", ∅, 60, none⟩)).apply
          ⟨some, fun _ => none, fun _ => none, toString⟩
          ((ConvoyStatusPatch.promise "ship" "dev"
              (.submit "own" .pr .crew ⟨"#7", ∅, 60, none⟩)).apply
            ⟨some, fun _ => none, fun _ => none, toString⟩ openDelivery) =
        (ConvoyStatusPatch.promise "ship" "dev"
            (.submit "own" .pr .crew ⟨"#7", ∅, 60, none⟩)).apply
          ⟨some, fun _ => none, fun _ => none, toString⟩ openDelivery := by
  have hids : DistinctIds openDelivery := by
    intro vessel role
    rw [openDelivery, owned_modifyOwned]
    split
    case isTrue => simp
    case isFalse => simp [owned]
  exact ⟨hids, patch_apply_idem ⟨some, fun _ => none, fun _ => none, toString⟩ hids
    (.promise "ship" "dev" (.submit "own" .pr .crew ⟨"#7", ∅, 60, none⟩)) rfl⟩

/-- A crew member that holds two promises with one id retracts the second one by repeating
itself. -/
theorem retract_twice_retracts_both :
    ∃ (names : Spelling) (s : ConvoyStatus) (patch : ConvoyStatusPatch), patch.mutates = false ∧
      patch.apply names (patch.apply names s) ≠ patch.apply names s := by
  refine ⟨⟨fun _ => none, fun _ => none, fun _ => none, toString⟩,
    modifyOwned { phase := .active } "ship" "dev" fun _ =>
      [⟨"own", "ship", "dev", .crew, .pr, .isOpen, none, []⟩,
        ⟨"own", "ship", "dev", .crew, .pr, .isOpen, none, []⟩],
    .promise "ship" "dev" (.retract "own" "moot"), rfl, fun h => ?_⟩
  have hstates := congrArg (fun s => (s.owned "ship" "dev").map Promise.state) h
  revert hstates
  decide +kernel

end Flotilla.Status
