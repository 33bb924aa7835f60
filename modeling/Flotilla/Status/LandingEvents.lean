import Flotilla.Status.Terminal

/-!
# Landing events

A pass that reports the entry into landing wraps the patch it would make anyway
and notes that the report was made.  No patch reads that note, so it makes no
difference to anything else a patch does.

* `Blind` : a change that neither reads nor writes the landing entry.
* `body_blind` : every patch but those that may enter landing is one.
* `markEventEmitted_apply` : a patch does the same, up to the note, to a status
  with and without it.
-/

namespace Flotilla.Status

open Lib ConvoyStatus

/-- The status with another landing entry. -/
def ConvoyStatus.withLandingEntry (s : ConvoyStatus) (entry : Option LandingEntry) : ConvoyStatus :=
  { s with landingEntry := entry }

/-- The change neither reads nor writes the landing entry. -/
def Blind (f : ConvoyStatus → ConvoyStatus) : Prop :=
  ∀ entry s, f (s.withLandingEntry entry) = (f s).withLandingEntry entry

namespace Blind

variable {f g : ConvoyStatus → ConvoyStatus}

theorem comp (hf : Blind f) (hg : Blind g) : Blind fun s => f (g s) := by
  intro entry s
  dsimp only
  rw [hg, hf]

theorem ite {c : ConvoyStatus → Prop} [∀ s, Decidable (c s)]
    (hc : ∀ entry s, c (s.withLandingEntry entry) ↔ c s) (hf : Blind f) (hg : Blind g) :
    Blind fun s => if c s then f s else g s := by
  intro entry s
  by_cases h : c s
  · simp only [if_pos h, if_pos ((hc entry s).mpr h)]
    exact hf entry s
  · simp only [if_neg h, if_neg (mt (hc entry s).mp h)]
    exact hg entry s

theorem foldl {A : Type} {f : ConvoyStatus → A → ConvoyStatus} (hf : ∀ a, Blind fun s => f s a)
    (l : List A) : Blind fun s => l.foldl f s := by
  induction l with
  | nil => exact fun _ _ => rfl
  | cons a l ih =>
    exact fun entry s => (congrArg (l.foldl f) (hf a entry s)).trans (ih entry (f s a))

end Blind

namespace ConvoyStatus

theorem discoverSubject_blind (subject : Subject) (relationship : Relationship)
    (source : SubjectDiscoverySource) (at_ : DateTime) :
    Blind fun s => s.discoverSubject subject relationship source at_ :=
  Blind.ite (fun _ _ => .rfl) (fun _ _ => rfl) (fun _ _ => rfl)

variable (names : Spelling) (vessel role : String)

theorem discoverSubmitted_blind (submission : Submission) :
    Blind fun s => s.discoverSubmitted names submission := by
  unfold discoverSubmitted
  cases submission.subjectAddress names >>= names.subjectFor with
  | none => exact fun _ _ => rfl
  | some subject =>
    exact .ite (fun _ _ => .rfl) (fun _ _ => rfl) (discoverSubject_blind _ _ _ _)

theorem applyPromiseAt_blind (fuel : Nat) (vessel role : String) (operation : PromiseOperation) :
    Blind fun s => applyPromiseAt names fuel s vessel role operation := by
  induction fuel generalizing operation with
  | zero => exact fun _ _ => rfl
  | succ fuel ih =>
    refine Blind.ite (fun _ _ => .rfl) (fun _ _ => rfl) ?_
    cases operation with
    | declare | retract | verdict => exact fun _ _ => rfl
    | submit id kind source submission =>
      intro entry s
      dsimp only
      -- The promise is found in the same list, whatever the entry.
      have howned : ((s.withLandingEntry entry).modifyOwned vessel role
          (declare vessel role id kind source)).owned vessel role =
          (s.modifyOwned vessel role (declare vessel role id kind source)).owned vessel role := rfl
      rw [howned]
      split
      case h_1 => rfl
      case h_2 received _ =>
        refine Blind.comp (f := fun t => if kind = .pr then
          discoverSubmitted names (if t.defaultPrOpen vessel role then
            applyPromiseAt names fuel t vessel role (.submit "template/pr" .pr .template submission)
          else t) submission else t)
          (g := fun s =>
            (s.modifyOwned vessel role (declare vessel role id kind source)).modifyOwned
            vessel role (modifyFirst (·.id = id) fun _ => received)) ?_ (fun _ _ => rfl) entry s
        refine Blind.ite (fun _ _ => .rfl) ?_ fun _ _ => rfl
        exact Blind.comp (discoverSubmitted_blind names submission)
          (Blind.ite (fun _ _ => .rfl) (ih _) fun _ _ => rfl)

theorem clearPendingBriefFor_blind : Blind fun s => s.clearPendingBriefFor vessel role :=
  Blind.ite (fun _ _ => .rfl) (fun _ _ => rfl) (fun _ _ => rfl)

theorem clearStallForCrew_blind : Blind fun s => s.clearStallForCrew vessel role :=
  Blind.ite (fun _ _ => .rfl) (fun _ _ => rfl) (fun _ _ => rfl)

theorem clearTerminalStall_blind : Blind clearTerminalStall :=
  Blind.ite (fun _ _ => .rfl) (fun _ _ => rfl) (fun _ _ => rfl)

theorem handoff_blind (sender target : String) : Blind fun s => s.handoff vessel sender target := by
  refine .ite (fun _ _ => .rfl) (fun _ _ => rfl) fun entry s => ?_
  have hpromises : (s.withLandingEntry entry).promises = s.promises := rfl
  rw [hpromises]
  repeat' split
  all_goals rfl

theorem seedPromises_blind (dispatch : List DispatchPromise) :
    Blind (seedPromises names dispatch) :=
  fun entry s => Blind.foldl
    (f := fun s (declaration : String × String × PromiseOperation) =>
      s.applyPromise names declaration.1 declaration.2.1 declaration.2.2)
    (fun declaration =>
      applyPromiseAt_blind names 2 declaration.1 declaration.2.1 declaration.2.2)
    (admittedDeclarations dispatch s) entry s

end ConvoyStatus

/-! ### Bodies -/

def Flow.withLandingEntry (entry : Option LandingEntry) : Flow → Flow
  | .error s => .error (s.withLandingEntry entry)
  | .ok s => .ok (s.withLandingEntry entry)

/-- The body neither reads nor writes the landing entry. -/
def BlindFlow (body : ConvoyStatus → Flow) : Prop :=
  ∀ entry s, body (s.withLandingEntry entry) = Flow.withLandingEntry entry (body s)

namespace BlindFlow

variable {f : ConvoyStatus → ConvoyStatus} {body : ConvoyStatus → Flow}

theorem pure (hf : Blind f) : BlindFlow fun s => .ok (f s) :=
  fun entry s => congrArg Except.ok (hf entry s)

theorem refuseIf {c : ConvoyStatus → Prop} [∀ s, Decidable (c s)]
    (hc : ∀ entry s, c (s.withLandingEntry entry) ↔ c s) (hf : Blind f) (hbody : BlindFlow body) :
    BlindFlow fun s => Lib.refuseIf (c s) (f s) >>= fun _ => body s := by
  intro entry s
  dsimp only
  by_cases h : c s
  · rw [Lib.refuseIf, Lib.refuseIf, if_pos h, if_pos ((hc entry s).mpr h)]
    exact congrArg Except.error (hf entry s)
  · rw [refuseIf_bind h, refuseIf_bind (mt (hc entry s).mp h)]
    exact hbody entry s

theorem guarded (exempt : Bool) (hbody : BlindFlow body) :
    Blind fun s => s.guarded exempt body := by
  refine .ite (fun _ _ => .rfl) (fun _ _ => rfl) fun entry s => ?_
  rw [hbody entry s]
  cases body s with
  | error returned => rfl
  | ok reached => exact clearTerminalStall_blind entry reached

end BlindFlow

namespace ConvoyStatus

theorem resumeCrewWork_blind (intent : ResumeIntent) (vessel role : String) (resumedAt : DateTime)
    (prompt : String) (briefId : Option String) :
    BlindFlow fun s => s.resumeCrewWork intent vessel role resumedAt prompt briefId := by
  refine BlindFlow.refuseIf (fun _ _ => .rfl) (fun _ _ => rfl) (BlindFlow.pure ?_)
  refine .comp (clearPendingBriefFor_blind vessel role) fun entry s => ?_
  have hreleased : ((s.withLandingEntry entry).heldSources vessel role).foldl releaseSource
      (s.withLandingEntry entry) =
      ((s.heldSources vessel role).foldl releaseSource s).withLandingEntry entry :=
    Blind.foldl (fun _ _ _ => rfl) (s.heldSources vessel role) entry s
  rw [hreleased]
  rfl

theorem handoffCrewWork_blind (vessel sender target : String) (handedOffAt : DateTime)
    (message : String) :
    BlindFlow fun s => s.handoffCrewWork vessel sender target handedOffAt message := by
  intro entry s
  have hhanded : (if (s.withLandingEntry entry).crewWork[vessel]?.any (target ∈ ·) then
        (s.withLandingEntry entry).handoff vessel sender target
      else s.withLandingEntry entry) =
      (if s.crewWork[vessel]?.any (target ∈ ·) then s.handoff vessel sender target
        else s).withLandingEntry entry :=
    Blind.ite (c := fun s => s.crewWork[vessel]?.any (target ∈ ·) = true) (g := fun s => s)
      (fun _ _ => .rfl) (handoff_blind vessel sender target) (fun _ _ => rfl) entry s
  simp only [handoffCrewWork, hhanded]
  generalize (if s.crewWork[vessel]?.any (target ∈ ·) then s.handoff vessel sender target else s) =
    handed
  have hcrew : ((handed.withLandingEntry entry).modifyWork vessel fun work =>
      { work with completionAuthority := .crewRollup }).crewWork[vessel]? =
      (handed.modifyWork vessel fun work =>
        { work with completionAuthority := .crewRollup }).crewWork[vessel]? := rfl
  rw [hcrew]
  cases (handed.modifyWork vessel fun work =>
      { work with completionAuthority := .crewRollup }).crewWork[vessel]? with
  | none => rfl
  | some crew =>
    refine congrArg Except.ok ?_
    split
    case isTrue =>
      exact Blind.comp
        (g := fun t => (t.modifyCrew vessel target (takeOver handedOffAt message)).modifyCrew
          vessel sender fun sender => { sender with
            phase := .handedBack
            finishedAt := some handedOffAt
            message := some message })
        (clearPendingBriefFor_blind vessel sender) (fun _ _ => rfl) entry
        (handed.modifyWork vessel fun work => { work with completionAuthority := .crewRollup })
    case isFalse => rfl

theorem observeQueuedTurnDeliveries_blind (names : Spelling)
    (observations : List QueuedTurnObservation) (observedAt : DateTime) :
    Blind fun s => s.observeQueuedTurnDeliveries names observations observedAt := by
  intro entry s
  have hobserved : observations.foldl (observeQueuedTurn observedAt) (s.withLandingEntry entry) =
      (observations.foldl (observeQueuedTurn observedAt) s).withLandingEntry entry :=
    Blind.foldl (fun _ _ _ => rfl) observations entry s
  simp only [observeQueuedTurnDeliveries, hobserved]
  generalize observations.foldl (observeQueuedTurn observedAt) s = observed
  have hattention : (observed.withLandingEntry entry).attention = observed.attention := rfl
  rw [hattention]
  split <;> rfl

end ConvoyStatus

namespace ConvoyStatusPatch

variable {names : Spelling}

/-- The patch may enter landing, or is a landing event. -/
def touchesLandingEntry : ConvoyStatusPatch → Bool
  | .recordLandingEvent _ | .forceWorkCompleted .. | .deriveCrewDone .. | .markCrewCompleted .. =>
    true
  | _ => false

theorem body_blind {patch : ConvoyStatusPatch} (h : patch.touchesLandingEntry = false) :
    BlindFlow (patch.body names) := by
  cases patch with
  | recordLandingEvent | forceWorkCompleted | deriveCrewDone | markCrewCompleted => cases h
  | promise vessel role operation =>
    exact BlindFlow.pure (Blind.ite (fun _ _ => .rfl)
      (applyPromiseAt_blind names 2 vessel role operation) fun _ _ => rfl)
  | observePromise vessel role operation =>
    exact BlindFlow.pure (applyPromiseAt_blind names 2 vessel role operation)
  | discoverSubjects subjects source at_ =>
    exact BlindFlow.pure (Blind.foldl
      (f := fun s (subject : Subject × Relationship) =>
        s.discoverSubject subject.1 subject.2 source at_)
      (fun subject => discoverSubject_blind subject.1 subject.2 source at_) subjects)
  | bootstrap snapshot ref workflows work crewWork dispatch phase startedAt =>
    exact BlindFlow.pure (Blind.comp
      (f := fun seeded => { seeded with phase, startedAt := seeded.startedAt.or startedAt })
      (fun _ _ => rfl) (Blind.comp (seedPromises_blind names dispatch) fun _ _ => rfl))
  | failInit | rollUpPhase | observeTurnHookHealth | acknowledgeSupervisorTurn =>
    exact BlindFlow.pure (Blind.ite (fun _ _ => .rfl) (fun _ _ => rfl) fun _ _ => rfl)
  | restoreTurnActivation | settle | markWorkFailed | markWorkCancelled | markConvoyAbandoned
  | recordTurnDelivery =>
    exact BlindFlow.refuseIf (fun _ _ => .rfl) (fun _ _ => rfl) (BlindFlow.pure fun _ _ => rfl)
  | workProvisioningRetry work retry message =>
    exact BlindFlow.pure (Blind.comp
      (f := fun s => s.modifyWork work fun state => { state with provisioningRetry := some retry })
      (fun _ _ => rfl) (BlindFlow.guarded false (BlindFlow.pure fun _ _ => rfl)))
  | markCrewFailed vessel role finishedAt message =>
    exact BlindFlow.pure (Blind.comp (clearStallForCrew_blind vessel role)
      (Blind.comp (clearPendingBriefFor_blind vessel role) fun _ _ => rfl))
  | markCrewStalled =>
    exact BlindFlow.refuseIf (fun _ _ => .rfl) (fun _ _ => rfl)
      (BlindFlow.refuseIf (fun _ _ => .rfl) (fun _ _ => rfl) (BlindFlow.pure fun _ _ => rfl))
  | handoffCrewWork vessel sender target handedOffAt message =>
    exact handoffCrewWork_blind vessel sender target handedOffAt message
  | resumeCrewWork intent vessel role resumedAt prompt briefId =>
    exact resumeCrewWork_blind intent vessel role resumedAt prompt briefId
  | beginMessageFollowUp vessel role message content claim =>
    refine BlindFlow.refuseIf (fun _ _ => .rfl) (fun _ _ => rfl) (BlindFlow.pure ?_)
    exact .comp (f := fun s => s.modifyCrew vessel role dropClaim)
      (fun _ _ => rfl) (Blind.comp (BlindFlow.guarded false
        (resumeCrewWork_blind .reopen vessel role claim.claimedAt content
          (some message.name))) fun _ _ => rfl)
  | observeQueuedTurnDeliveries observations observedAt =>
    exact BlindFlow.pure
      (observeQueuedTurnDeliveries_blind names observations observedAt)
  | _ => exact fun _ _ => rfl

end ConvoyStatusPatch

/-! ### The note of a landing event -/

namespace ConvoyStatus

/-- Two statuses that differ at most in the note that entering landing was reported. -/
def SameButReport (s t : ConvoyStatus) : Prop := s.markEventEmitted = t.markEventEmitted

variable (s : ConvoyStatus)

theorem markEventEmitted_idem : s.markEventEmitted.markEventEmitted = s.markEventEmitted := by
  unfold markEventEmitted
  cases s.landingEntry <;> rfl

theorem sameButReport_markEventEmitted : SameButReport s.markEventEmitted s :=
  markEventEmitted_idem s

/-- The note is made in the entry that the status has. -/
theorem withLandingEntry_noted {entry : Option LandingEntry} (h : s = s.withLandingEntry entry) :
    s.withLandingEntry (entry.map fun entry => { entry with eventEmitted := true }) =
      s.markEventEmitted := by
  have hentry : s.landingEntry = entry := by
    rw [h]
    rfl
  rw [← hentry]
  rfl

theorem clearTerminalStall_markEventEmitted :
    s.clearTerminalStall.markEventEmitted = s.markEventEmitted.clearTerminalStall := by
  unfold clearTerminalStall
  have hphase : s.markEventEmitted.phase = s.phase := rfl
  rw [hphase]
  split <;> rfl

theorem SameButReport.clearTerminalStall {s t : ConvoyStatus} (h : SameButReport s t) :
    SameButReport s.clearTerminalStall t.clearTerminalStall := by
  unfold SameButReport at h ⊢
  rw [clearTerminalStall_markEventEmitted, clearTerminalStall_markEventEmitted, h]

/-- Entering landing makes a new entry, or leaves the old one. -/
theorem sameButReport_enterLanding (at_ : DateTime) :
    SameButReport (s.markEventEmitted.enterLandingIfCompletionClaimsSettled at_)
      (s.enterLandingIfCompletionClaimsSettled at_) := by
  unfold enterLandingIfCompletionClaimsSettled
  have hready : s.markEventEmitted.readyForLanding = s.readyForLanding := rfl
  rw [hready]
  split
  case isTrue => rfl
  case isFalse => exact sameButReport_markEventEmitted s

end ConvoyStatus

variable {body : ConvoyStatus → Flow} {f : ConvoyStatus → ConvoyStatus}

/-- A blind change keeps the note. -/
theorem Blind.markEventEmitted (hf : Blind f) (s : ConvoyStatus) :
    f s.markEventEmitted = (f s).markEventEmitted :=
  (hf _ s).trans (withLandingEntry_noted (f s) (hf s.landingEntry s))

/-- A change that ends by entering landing. -/
theorem Blind.enterLanding (hf : Blind f) (s : ConvoyStatus) (at_ : DateTime) :
    ((f s.markEventEmitted).enterLandingIfCompletionClaimsSettled at_).SameButReport
      ((f s).enterLandingIfCompletionClaimsSettled at_) := by
  rw [hf.markEventEmitted]
  exact sameButReport_enterLanding (f s) at_

/-- The same outcome, up to the note. -/
def Flow.SameButReport : Flow → Flow → Prop
  | .error s, .error t => s.SameButReport t
  | .ok s, .ok t => s.SameButReport t
  | _, _ => False

theorem Flow.SameButReport.refuseIf {c : Prop} [Decidable c] {s t : ConvoyStatus}
    (h : s.SameButReport t) {f g : Unit → Flow} (hfg : Flow.SameButReport (f ()) (g ())) :
    Flow.SameButReport (Lib.refuseIf c s >>= f) (Lib.refuseIf c t >>= g) := by
  by_cases hc : c
  · rw [Lib.refuseIf, Lib.refuseIf, if_pos hc, if_pos hc]
    exact h
  · rw [refuseIf_bind hc, refuseIf_bind hc]
    exact hfg

/-- A blind body does not read the note. -/
theorem BlindFlow.sameButReport (h : BlindFlow body) (s : ConvoyStatus) :
    Flow.SameButReport (body s.markEventEmitted) (body s) := by
  have hmarked : body s.markEventEmitted = Flow.withLandingEntry
      (s.landingEntry.map fun entry => { entry with eventEmitted := true }) (body s) := h _ s
  have hsame : body s = Flow.withLandingEntry s.landingEntry (body s) := h s.landingEntry s
  rw [hmarked]
  generalize body s = result at hsame ⊢
  unfold Flow.withLandingEntry Flow.SameButReport
  -- The body leaves the landing entry as it was.
  cases result with
  | error t =>
    dsimp only
    rw [withLandingEntry_noted t (Except.error.inj hsame)]
    exact sameButReport_markEventEmitted t
  | ok t =>
    dsimp only
    rw [withLandingEntry_noted t (Except.ok.inj hsame)]
    exact sameButReport_markEventEmitted t

theorem Flow.SameButReport.guarded {s : ConvoyStatus}
    (h : Flow.SameButReport (body s.markEventEmitted) (body s)) (exempt : Bool) :
    (s.markEventEmitted.guarded exempt body).SameButReport (s.guarded exempt body) := by
  unfold ConvoyStatus.guarded
  have hphase : s.markEventEmitted.phase = s.phase := rfl
  rw [hphase]
  split
  case isTrue => exact sameButReport_markEventEmitted s
  case isFalse =>
    revert h
    generalize body s.markEventEmitted = left
    generalize body s = right
    intro h
    cases left with
    | error t =>
      cases right with
      | error u => exact h
      | ok u => exact h.elim
    | ok t =>
      cases right with
      | error u => exact h.elim
      | ok u => exact ConvoyStatus.SameButReport.clearTerminalStall h

namespace ConvoyStatusPatch

variable {names : Spelling}

/-- **No patch reads the note of a landing event.** -/
theorem body_sameButReport (names : Spelling) (s : ConvoyStatus) (patch : ConvoyStatusPatch) :
    Flow.SameButReport (patch.body names s.markEventEmitted) (patch.body names s) := by
  cases patch with
  | recordLandingEvent transition =>
    cases transition with
    | none =>
      exact congrArg markEventEmitted (markEventEmitted_idem s)
    | some transition =>
      have hinner := (body_sameButReport names s transition).guarded (transition.exempt s)
      simp only [body]
      exact congrArg markEventEmitted hinner
  | forceWorkCompleted work finishedAt message =>
    exact Flow.SameButReport.refuseIf (sameButReport_markEventEmitted s)
      (Blind.enterLanding (f := fun s => s.modifyWork work fun state => { state with
        phase := .complete
        completionAuthority := .humanOverride
        finishedAt := some (state.finishedAt.getD finishedAt)
        message }) (fun _ _ => rfl) s finishedAt)
  | markCrewCompleted vessel role finishedAt message disposition ref digest active forcedBy =>
    exact Flow.SameButReport.refuseIf (sameButReport_markEventEmitted s)
      (Blind.enterLanding (Blind.comp (clearStallForCrew_blind vessel role)
        (g := fun s => (s.clearNudgeBudget vessel role).modifyCrew vessel role
          (claimDone finishedAt message disposition ref digest active forcedBy
            ((s.clearNudgeBudget vessel role).precedingTurn vessel role finishedAt)))
        fun _ _ => rfl) s finishedAt)
  | deriveCrewDone vessel role at_ engine =>
    refine Flow.SameButReport.refuseIf (sameButReport_markEventEmitted s) ?_
    refine Flow.SameButReport.refuseIf (sameButReport_markEventEmitted s) ?_
    have hcrew : s.markEventEmitted.crewAt vessel role = s.crewAt vessel role := rfl
    rw [hcrew]
    cases s.crewAt vessel role with
    | none => exact sameButReport_markEventEmitted s
    | some state =>
      refine Flow.SameButReport.refuseIf ?_ ?_
      · split
        case isTrue => exact sameButReport_enterLanding s at_
        case isFalse => exact sameButReport_markEventEmitted s
      · exact Blind.enterLanding (Blind.comp (clearStallForCrew_blind vessel role)
          (g := fun s => (s.modifyCrew vessel role fun state => { state with
            phase := .done
            completionAuthority := .promises
            finishedAt := none
            message := none
            completionTurn := none
            completionRefusal := none }).clearNudgeBudget vessel role)
          fun _ _ => rfl) s at_
  | _ => exact (body_blind rfl).sameButReport s

/-- A patch does the same, up to the note, to a status with and without it. -/
theorem markEventEmitted_apply (patch : ConvoyStatusPatch) (s : ConvoyStatus) :
    (patch.apply names s.markEventEmitted).markEventEmitted =
      (patch.apply names s).markEventEmitted := by
  exact (body_sameButReport names s patch).guarded _

end ConvoyStatusPatch

end Flotilla.Status
