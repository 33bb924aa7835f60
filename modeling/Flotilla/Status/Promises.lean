import Flotilla.Lib.FirstMatch
import Flotilla.Lib.Decimal
import Flotilla.Status.Types

/-!
# Promises

The promise state machine that commands and discovery share.  A crew member
declares a promise, submits evidence for it, and the evidence is accepted or
rejected; a promise that never received evidence may be retracted.  Open
obligations follow the work when it is handed to another role.

* `applyPromise` : one operation of a crew member.  A submission of a change
  request also fulfils the default promise of the deliverer, by a recursive call.
* `handoff` : the unsettled promises of one role move to another.
* `owned_modifyOwned`, `owned_modifyHeld`, `owned_handoff` : what a crew member
  holds after each.
-/

namespace Flotilla.Status

open Lib Std

/-! ### Submissions -/

namespace Submission

def subject (x : Submission) : String := x.metadata["subject"]?.getD x.reference

def subjectAddress (names : Spelling) (x : Submission) : Option Address := names.resolve x.subject

/-- The submission names the change request or issue at `address`. -/
def isNamed (names : Spelling) (x : Submission) (address : Address) : Bool :=
  x.subjectAddress names = some address

/-- The same text, or text that resolves to the same address. -/
def sameSubject (names : Spelling) (x other : Submission) : Bool :=
  x.subject = other.subject || (x.subjectAddress names).any (other.isNamed names)

end Submission

/-! ### Subjects of a convoy -/

namespace ConvoyStatus

def producesAny (s : ConvoyStatus) (matching : Subject → Bool) : Bool :=
  s.subjects.any fun entry => entry.relationship = .produces && matching entry.subject

/-- Evidence of one source about a subject that is already known. -/
def recordSource (source : SubjectDiscoverySource) (at_ : DateTime) (entry : DiscoveredSubject) :
    DiscoveredSubject :=
  { entry with
    sources :=
      if entry.sources.any (·.source = source) then
        modifyFirst (·.source = source) (fun evidence => { evidence with at_ := at_ }) entry.sources
      else entry.sources ++ [⟨source, at_⟩] }

def discoverSubject (s : ConvoyStatus) (subject : Subject) (relationship : Relationship)
    (source : SubjectDiscoverySource) (at_ : DateTime) : ConvoyStatus :=
  if subject ∈ s.unlinkedSubjects ∧ source ≠ .operator then s
  else
    let scanned := subject.kind = .changeRequest ∧ relationship = .produces
    let known := fun (entry : DiscoveredSubject) =>
      decide (entry.subject = subject ∧ entry.relationship = relationship)
    { s with
      unlinkedSubjects :=
        if source = .operator then s.unlinkedSubjects.filter (· ≠ subject) else s.unlinkedSubjects
      branchSubjectScanAt := if scanned then some at_ else s.branchSubjectScanAt
      branchSubjectScanError := if scanned then none else s.branchSubjectScanError
      subjects :=
        if s.subjects.any known then modifyFirst known (recordSource source at_) s.subjects
        else s.subjects ++ [⟨subject, relationship, [⟨source, at_⟩]⟩] }

def unlinkSubject (s : ConvoyStatus) (subject : Subject) : ConvoyStatus :=
  { s with
    subjects := s.subjects.filter (·.subject ≠ subject)
    unlinkedSubjects :=
      if subject ∈ s.unlinkedSubjects then s.unlinkedSubjects else s.unlinkedSubjects ++ [subject] }

end ConvoyStatus

/-! ### Operations -/

inductive PromiseOperation where
  | declare (id : String) (kind : PromiseKind) (source : PromiseSource)
  | submit (id : String) (kind : PromiseKind) (source : PromiseSource) (submission : Submission)
  | retract (id : String) (reason : String)
  | verdict (id : String) (reference : String) (submittedAt : DateTime)
      (verdict : SubmissionVerdict)
  deriving DecidableEq

namespace Promise

def isDefaultPr (p : Promise) : Bool :=
  p.id = "template/pr" && p.kind = .pr && p.source = .template

/-- What a submission makes of a promise; `none` is a submission the promise does not take.
Evidence about the subject already submitted only refreshes its metadata. -/
def receive (names : Spelling) (kind : PromiseKind) (submission : Submission) (p : Promise) :
    Option Promise :=
  if p.kind = kind ∧ (p.state = .submitted ∨ p.state = .kept) then
    match p.submissions.getLast? with
    | some prior =>
      if prior.sameSubject names submission then
        some { p with
          submissions :=
            modifyLast (fun prior =>
              { prior with metadata := prior.metadata ∪ submission.metadata }) p.submissions }
      else none
    | none => none
  else if p.kind ≠ kind ∨ p.state.terminal then none
  else if p.submissions.any fun prior =>
      prior.reference = submission.reference ∧ prior.submittedAt = submission.submittedAt ∧
        prior.metadata = submission.metadata then none
  else some { p with submissions := p.submissions ++ [submission], state := .submitted }

/-- The promise may be withdrawn: a crew's own one that never received evidence. -/
def retractable (p : Promise) : Bool :=
  !p.state.terminal && p.source = .crew && p.submissions = []

def retract (reason : String) (p : Promise) : Promise :=
  { p with state := .retracted, retractionReason := some reason }

/-- The verdict on the last submission, if it is the one judged and it has none yet. -/
def judge (reference : String) (submittedAt : DateTime) (verdict : SubmissionVerdict)
    (p : Promise) : Promise :=
  match p.submissions.getLast? with
  | some last =>
    if last.reference = reference ∧ last.submittedAt = submittedAt ∧ last.verdict = none then
      { p with
        submissions := modifyLast (fun last => { last with verdict := some verdict }) p.submissions
        state := if verdict.accepted then .kept else .isOpen }
    else p
  | none => p

end Promise

namespace ConvoyStatus

/-- `promises.entry(vessel).or_default().entry(role).or_default()`, changed in place. -/
def modifyOwned (s : ConvoyStatus) (vessel role : String) (f : List Promise → List Promise) :
    ConvoyStatus :=
  { s with
    promises := s.promises.alter vessel fun crew =>
      some ((crew.getD ∅).alter role fun promises => some (f (promises.getD []))) }

/-- `promises.get_mut(vessel).and_then(|crew| crew.get_mut(role))`, changed in place. -/
def modifyHeld (s : ConvoyStatus) (vessel role : String) (f : List Promise → List Promise) :
    ConvoyStatus :=
  { s with promises := s.promises.modify vessel fun crew => crew.modify role f }

/-- A promise that is declared unless its id is already held. -/
def declare (vessel role id : String) (kind : PromiseKind) (source : PromiseSource)
    (promises : List Promise) : List Promise :=
  if promises.any (·.id = id) then promises
  else promises ++ [{ id, vessel, role, source, kind, state := .isOpen, retractionReason := none,
                      submissions := [] }]

/-- The produced change request of a submission becomes a subject of the convoy. -/
def discoverSubmitted (names : Spelling) (s : ConvoyStatus) (submission : Submission) :
    ConvoyStatus :=
  match submission.subjectAddress names >>= names.subjectFor with
  | some subject =>
    if s.producesAny (names.sameSubject · subject) then s
    else s.discoverSubject subject .produces .claim submission.submittedAt
  | none => s

/-- The deliverer's default promise is still open. -/
def defaultPrOpen (s : ConvoyStatus) (vessel role : String) : Bool :=
  (s.owned vessel role).any fun p => p.isDefaultPr && p.state = .isOpen

/-- `promises::apply`.  The recursion of the source is bounded by `fuel`. -/
def applyPromiseAt (names : Spelling) :
    Nat → ConvoyStatus → String → String → PromiseOperation → ConvoyStatus
  | 0, s, _, _, _ => s
  | fuel + 1, s, vessel, role, operation =>
    if s.phase.isTerminal then s
    else match operation with
      | .declare id kind source => s.modifyOwned vessel role (declare vessel role id kind source)
      | .submit id kind source submission =>
        let declared := s.modifyOwned vessel role (declare vessel role id kind source)
        match (declared.owned vessel role).find? (·.id = id) >>=
            Promise.receive names kind submission with
        | none => declared
        | some received =>
          let submitted := declared.modifyOwned vessel role
            (modifyFirst (·.id = id) fun _ => received)
          if kind = .pr then
            -- A named change request also fulfils the deliverer's minimum.
            let fulfilled :=
              if submitted.defaultPrOpen vessel role then
                applyPromiseAt names fuel submitted vessel role
                  (.submit "template/pr" .pr .template submission)
              else submitted
            fulfilled.discoverSubmitted names submission
          else submitted
      | .retract id reason =>
        s.modifyHeld vessel role
          (modifyFirst (fun p => p.id = id && p.retractable) (Promise.retract reason))
      | .verdict id reference submittedAt verdict =>
        s.modifyHeld vessel role
          (modifyFirst (fun p => p.id = id && p.state = .submitted)
            (Promise.judge reference submittedAt verdict))

/-- `promises::apply`.  The call for the default promise makes no further call when the ids of the
crew are distinct (`applyPromiseAt_eq`), so two levels are the whole recursion. -/
def applyPromise (names : Spelling) (s : ConvoyStatus) (vessel role : String)
    (operation : PromiseOperation) : ConvoyStatus :=
  applyPromiseAt names 2 s vessel role operation

/-! ### Handoffs -/

/-- The source counts in a `u32`.  `firstFree` tries one number more than the target holds ids, so
the two differ only for a crew member with 2 ^ 32 promises. -/
def handoffId (sender original : String) (sequence : Nat) : String :=
  "handoff/" ++ sender ++ "/" ++ original ++ "/" ++ toString sequence

def stampProducer (sender : String) (x : Submission) : Submission :=
  { x with metadata := x.metadata.insertIfNew "producer" sender }

/-- A ledger keeps the name of the role that produced its entries. -/
def withProducer (sender : String) (p : Promise) : Promise :=
  if p.kind = .decisionLedger then
    { p with submissions := p.submissions.map (stampProducer sender) }
  else p

/-- A promise that moves to `target` takes a new id when its own is held there. -/
def moveTo (sender target : String) (held : List Promise) (p : Promise) : List Promise :=
  held ++ [{ withProducer sender p with
    id :=
      if held.any (·.id = p.id) then firstFree (held.map Promise.id) (handoffId sender p.id)
      else p.id
    role := target }]

/-- Open obligations follow the work; finished history stays with its owner. -/
def handoff (s : ConvoyStatus) (vessel sender target : String) : ConvoyStatus :=
  if sender = target then s
  else match s.promises[vessel]? with
    | none => s
    | some crew =>
      match crew[sender]? with
      | none => s
      | some promises =>
        let settled := crew.insert sender (promises.filter (·.state.terminal))
        { s with
          promises := s.promises.insert vessel
            (settled.insert target
              ((promises.filter (!·.state.terminal)).foldl (moveTo sender target)
                (settled[target]?.getD []))) }

/-! ### What a crew holds -/

section Owned

variable {s : ConvoyStatus} {vessel role : String}

theorem owned_modifyOwned (f : List Promise → List Promise) (v r : String) :
    (s.modifyOwned vessel role f).owned v r =
      if vessel = v ∧ role = r then f (s.owned vessel role) else s.owned v r := by
  unfold owned modifyOwned
  simp only [ExtTreeMap.getElem?_alter, Std.compare_eq_iff_eq]
  by_cases hv : vessel = v
  · subst hv
    by_cases hr : role = r
    · subst hr
      cases s.promises[vessel]? <;> simp
    · cases s.promises[vessel]? <;> simp [hr, ExtTreeMap.getElem?_alter]
  · simp [hv]

theorem owned_modifyHeld {f : List Promise → List Promise} (hf : f [] = []) (v r : String) :
    (s.modifyHeld vessel role f).owned v r =
      if vessel = v ∧ role = r then f (s.owned vessel role) else s.owned v r := by
  unfold owned modifyHeld
  simp only [ExtTreeMap.getElem?_modify, Std.compare_eq_iff_eq]
  by_cases hv : vessel = v
  · subst hv
    by_cases hr : role = r
    · subst hr
      cases hcrew : s.promises[vessel]? with
      | none => simp [hf]
      | some crew => cases hheld : crew[role]? <;> simp [hf, hheld]
    · cases s.promises[vessel]? <;> simp [hr, ExtTreeMap.getElem?_modify]
  · simp [hv]

theorem owned_handoff (s : ConvoyStatus) (vessel : String)
    {sender target : String} (h : sender ≠ target) (v r : String) :
    (s.handoff vessel sender target).owned v r =
      if v = vessel ∧ r = target then
        ((s.owned vessel sender).filter (!·.state.terminal)).foldl (moveTo sender target)
          (s.owned vessel target)
      else if v = vessel ∧ r = sender then (s.owned vessel sender).filter (·.state.terminal)
      else s.owned v r := by
  have hempty : s.owned vessel sender = [] → (s.owned v r =
      if v = vessel ∧ r = target then
        ((s.owned vessel sender).filter (!·.state.terminal)).foldl (moveTo sender target)
          (s.owned vessel target)
      else if v = vessel ∧ r = sender then (s.owned vessel sender).filter (·.state.terminal)
      else s.owned v r) := by
    intro hnone
    rw [hnone]
    split
    case isTrue hvr => rw [hvr.1, hvr.2]; rfl
    case isFalse =>
      split
      case isTrue hvr => rw [hvr.1, hvr.2, hnone]; rfl
      case isFalse => rfl
  unfold handoff
  rw [if_neg h]
  split
  case h_1 hcrew => exact hempty (by simp [owned, hcrew])
  case h_2 crew hcrew =>
    split
    case h_1 hheld => exact hempty (by simp [owned, hcrew, hheld])
    case h_2 promises hheld =>
      have hsender : s.owned vessel sender = promises := by simp [owned, hcrew, hheld]
      have htarget : s.owned vessel target = crew[target]?.getD [] := by simp [owned, hcrew]
      rw [hsender, htarget]
      unfold owned
      simp only [ExtTreeMap.getElem?_insert, Std.compare_eq_iff_eq]
      by_cases hv : v = vessel
      · subst hv
        by_cases ht : r = target
        · subst ht
          simp [h]
        · by_cases hs : r = sender
          · subst hs
            simp [Ne.symm ht, ht, ExtTreeMap.getElem_insert]
          · simp [hcrew, Ne.symm ht, ht, Ne.symm hs, hs, ExtTreeMap.getElem?_insert]
      · simp [hv, Ne.symm hv]

end Owned

end ConvoyStatus

end Flotilla.Status
