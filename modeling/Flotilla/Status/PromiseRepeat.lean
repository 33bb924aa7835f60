import Flotilla.Lib.Repeat
import Flotilla.Status.PromiseRuns

/-!
# Promise operations made twice

An operation of a crew member that reached the store without an answer is sent
again.  Where the ids of a crew member's promises are distinct, the second time
finds what the first one left and does nothing.

* `Holds` : the list a crew member holds, with its entry in the map.
* `receive_again` : a promise takes the same submission again as it is.
* `submit_eq_self` : when a submission finds nothing to do.
* `applyPromise_idem` : an operation made twice.
-/

namespace Flotilla.Status

open Lib Std

namespace ConvoyStatus

variable {names : Spelling} {s : ConvoyStatus} {vessel role : String} {l : List Promise}

/-- The crew member has an entry, with these promises. -/
def Holds (s : ConvoyStatus) (vessel role : String) (l : List Promise) : Prop :=
  (s.promises[vessel]? >>= fun crew => crew[role]?) = some l

theorem Holds.owned_eq (h : s.Holds vessel role l) : s.owned vessel role = l := by
  unfold owned
  rw [show (s.promises[vessel]? >>= fun crew => crew[role]?) = some l from h]
  rfl

theorem holds_modifyOwned (s : ConvoyStatus) (vessel role : String)
    (f : List Promise → List Promise) :
    (s.modifyOwned vessel role f).Holds vessel role (f (s.owned vessel role)) := by
  unfold Holds owned modifyOwned
  simp only [ExtTreeMap.getElem?_alter_self]
  cases s.promises[vessel]? <;> simp

variable {f : List Promise → List Promise}

/-- A change that finds nothing to do. -/
theorem Holds.modifyOwned_eq_self (h : s.Holds vessel role l) (hf : f l = l) :
    s.modifyOwned vessel role f = s := by
  obtain ⟨crew, hcrew, hl⟩ := Option.bind_eq_some_iff.mp h
  have hpromises : (s.promises.alter vessel fun crew =>
      some ((crew.getD ∅).alter role fun promises => some (f (promises.getD [])))) =
        s.promises := by
    apply BTreeMap.alter_eq_self
    rw [hcrew, Option.getD_some, BTreeMap.alter_eq_self]
    rw [hl, Option.getD_some, hf]
  unfold modifyOwned
  rw [hpromises]

theorem Holds.of_promises_eq {s' : ConvoyStatus} (h : s.Holds vessel role l)
    (hs : s'.promises = s.promises) : s'.Holds vessel role l := by
  unfold Holds at h ⊢
  rw [hs]
  exact h

theorem modifyHeld_idem (h : f (f (s.owned vessel role)) = f (s.owned vessel role)) :
    (s.modifyHeld vessel role f).modifyHeld vessel role f = s.modifyHeld vessel role f := by
  have hpromises : ((s.promises.modify vessel fun crew => crew.modify role f).modify vessel
      fun crew => crew.modify role f) =
        s.promises.modify vessel fun crew => crew.modify role f := by
    refine BTreeMap.modify_eq_self fun crew hcrew => BTreeMap.modify_eq_self fun held hheld => ?_
    rw [ExtTreeMap.getElem?_modify_self] at hcrew
    obtain ⟨before, hbefore, rfl⟩ := Option.map_eq_some_iff.mp hcrew
    rw [ExtTreeMap.getElem?_modify_self] at hheld
    obtain ⟨l, hl, rfl⟩ := Option.map_eq_some_iff.mp hheld
    have howned : s.owned vessel role = l := by
      unfold owned
      rw [hbefore]
      simp [hl]
    rw [howned] at h
    exact h
  unfold modifyHeld
  rw [hpromises]

end ConvoyStatus

/-! ### One promise -/

namespace Promise

variable {names : Spelling} {kind : PromiseKind} {submission : Submission} {p q : Promise}

theorem receive_id (h : p.receive names kind submission = some q) : q.id = p.id := by
  unfold receive at h
  repeat' split at h
  all_goals cases h
  all_goals rfl

/-- A promise that took a submission is not open. -/
theorem receive_not_open (h : p.receive names kind submission = some q) : q.state ≠ .isOpen := by
  unfold receive at h
  split at h
  case isTrue hstate =>
    repeat' split at h
    all_goals cases h
    rcases hstate.2 with hstate | hstate <;> rw [hstate] <;> exact nofun
  case isFalse =>
    repeat' split at h
    all_goals cases h
    exact nofun

theorem union_union_self {m n : BTreeMap String String} : (m ∪ n) ∪ n = m ∪ n := by
  apply ExtTreeMap.ext_getElem?
  intro k
  simp only [ExtTreeMap.getElem?_union]
  cases n[k]? <;> simp

theorem union_self (n : BTreeMap String String) : n ∪ n = n := by
  apply ExtTreeMap.ext_getElem?
  intro k
  simp only [ExtTreeMap.getElem?_union, Option.or_self]

/-- The metadata of a submission carries its subject along. -/
theorem sameSubject_union {prior : Submission} (h : prior.sameSubject names submission = true) :
    ({ prior with metadata := prior.metadata ∪ submission.metadata } :
      Submission).sameSubject names submission = true := by
  have hsubject : ({ prior with metadata := prior.metadata ∪ submission.metadata } :
      Submission).subject = prior.subject ∨
      ({ prior with metadata := prior.metadata ∪ submission.metadata } :
        Submission).subject = submission.subject := by
    unfold Submission.subject
    simp only [ExtTreeMap.getElem?_union]
    cases submission.metadata["subject"]? with
    | none => exact .inl (by simp)
    | some text => exact .inr (by simp)
  unfold Submission.sameSubject Submission.subjectAddress at h ⊢
  rcases hsubject with hsubject | hsubject
  · rw [hsubject]
    exact h
  · simp [hsubject]

/-- Where the last submission is of the same subject and already carries the metadata. -/
theorem receive_eq_self (earlier : List Submission) (last : Submission) (hkind : p.kind = kind)
    (hstate : p.state = .submitted ∨ p.state = .kept) (hlast : p.submissions = earlier ++ [last])
    (hsubject : last.sameSubject names submission = true)
    (hmetadata : last.metadata ∪ submission.metadata = last.metadata) :
    p.receive names kind submission = some p := by
  have hsame : modifyLast
      (fun prior => { prior with metadata := prior.metadata ∪ submission.metadata })
      p.submissions = p.submissions := by
    rw [hlast, modifyLast_append_singleton, hmetadata]
  have hgetLast : p.submissions.getLast? = some last := by rw [hlast, List.getLast?_append]; rfl
  unfold receive
  rw [if_pos ⟨hkind, hstate⟩, hgetLast, hsame]
  simp [hsubject]

/-- **A promise takes the same submission again as it is.** -/
theorem receive_again (h : p.receive names kind submission = some q) :
    q.receive names kind submission = some q := by
  unfold receive at h
  split at h
  case isTrue hstate =>
    split at h
    case h_1 prior hprior =>
      obtain ⟨earlier, hearlier⟩ := List.getLast?_eq_some_iff.mp hprior
      split at h
      case isTrue hsubject =>
        cases h
        refine receive_eq_self earlier
          { prior with metadata := prior.metadata ∪ submission.metadata } hstate.1 hstate.2 ?_
          (sameSubject_union hsubject) union_union_self
        simp only [hearlier, modifyLast_append_singleton]
      case isFalse => cases h
    case h_2 => cases h
  case isFalse =>
    split at h
    case isTrue => cases h
    case isFalse hkind =>
      split at h
      case isTrue => cases h
      case isFalse =>
        cases h
        refine receive_eq_self p.submissions submission (by simpa using (not_or.mp hkind).1)
          (.inl rfl) rfl ?_ (union_self _)
        simp [Submission.sameSubject]

theorem judge_judge {reference : String} {submittedAt : DateTime} {verdict : SubmissionVerdict}
    (hq : (p.judge reference submittedAt verdict).state = .submitted) :
    (p.judge reference submittedAt verdict).judge reference submittedAt verdict =
      p.judge reference submittedAt verdict := by
  have hsame : p.judge reference submittedAt verdict = p := by
    unfold judge at hq ⊢
    split
    case h_1 last hlast =>
      rw [hlast] at hq
      split
      case isTrue hjudged =>
        simp only [if_pos hjudged] at hq
        split at hq <;> cases hq
      case isFalse => rfl
    case h_2 => rfl
  rw [hsame]
  exact hsame

end Promise

namespace ConvoyStatus

variable {names : Spelling} {s : ConvoyStatus} {vessel role : String} {l : List Promise}
  {id : String} {kind : PromiseKind} {q received : Promise} {source : PromiseSource}
  {submission : Submission}

theorem declare_idem (h : l.any (·.id = id) = true) : declare vessel role id kind source l = l := by
  rw [declare, if_pos h]

theorem any_id_declare (id : String) (kind : PromiseKind) (source : PromiseSource) :
    (declare vessel role id kind source l).any (·.id = id) = true := by
  unfold declare
  split
  case isTrue h => exact h
  case isFalse => simp

theorem nodup_declare (h : (l.map Promise.id).Nodup) :
    ((declare vessel role id kind source l).map Promise.id).Nodup := by
  unfold declare
  split
  case isTrue => exact h
  case isFalse hfree =>
    rw [List.map_append, List.nodup_append]
    refine ⟨h, by simp, ?_⟩
    rintro a ha b hb rfl
    obtain ⟨p, hp, rfl⟩ := List.mem_map.mp ha
    exact hfree (List.any_eq_true.mpr ⟨p, hp, by simpa using hb⟩)

/-! ### What a submission discovers -/

theorem discoverSubject_phase (subject : Subject) (relationship : Relationship)
    (source : SubjectDiscoverySource) (at_ : DateTime) :
    (s.discoverSubject subject relationship source at_).phase = s.phase := by
  unfold discoverSubject
  split <;> rfl

theorem discoverSubmitted_phase :
    (s.discoverSubmitted names submission).phase = s.phase := by
  unfold discoverSubmitted
  repeat' split
  all_goals first | rfl | exact discoverSubject_phase _ _ _ _

/-- A subject that was not refused is known afterwards. -/
theorem mem_discoverSubject {subject : Subject} (relationship : Relationship)
    {source : SubjectDiscoverySource} (at_ : DateTime)
    (h : ¬ (subject ∈ s.unlinkedSubjects ∧ source ≠ .operator)) :
    ∃ entry ∈ (s.discoverSubject subject relationship source at_).subjects,
      entry.subject = subject ∧ entry.relationship = relationship := by
  unfold discoverSubject
  rw [if_neg h]
  dsimp only
  split
  case isTrue hknown =>
    obtain ⟨entry, hentry, hmatch⟩ := List.any_eq_true.mp hknown
    rcases exists_mem_modifyFirst
     
      hentry with hsame | ⟨-, hchanged⟩
    · exact ⟨entry, hsame, of_decide_eq_true hmatch⟩
    · exact ⟨_, hchanged, (of_decide_eq_true hmatch).1, (of_decide_eq_true hmatch).2⟩
  case isFalse => exact ⟨_, List.mem_append_right _ (List.mem_singleton.mpr rfl), rfl, rfl⟩

theorem discoverSubmitted_idem (submission : Submission) :
    (s.discoverSubmitted names submission).discoverSubmitted names submission =
      s.discoverSubmitted names submission := by
  cases hnamed : submission.subjectAddress names >>= names.subjectFor with
  | none =>
    have hnone : ∀ t : ConvoyStatus, t.discoverSubmitted names submission = t := by
      intro t
      rw [discoverSubmitted, hnamed]
    rw [hnone, hnone]
  | some subject =>
    have hsome : ∀ t : ConvoyStatus, t.discoverSubmitted names submission =
        if t.producesAny (names.sameSubject · subject) then t
        else t.discoverSubject subject .produces .claim submission.submittedAt := by
      intro t
      rw [discoverSubmitted, hnamed]
    by_cases hproduces : s.producesAny (names.sameSubject · subject) = true
    · have hsame : s.discoverSubmitted names submission = s := by rw [hsome, if_pos hproduces]
      rw [hsame, hsame]
    · have hstep := hsome s
      rw [if_neg hproduces] at hstep
      by_cases hunlinked : subject ∈ s.unlinkedSubjects ∧
          SubjectDiscoverySource.claim ≠ .operator
      · rw [discoverSubject, if_pos hunlinked] at hstep
        rw [hstep, hstep]
      · obtain ⟨entry, hentry, hsubject, hrelationship⟩ :=
          mem_discoverSubject .produces submission.submittedAt hunlinked
        rw [hstep, hsome, if_pos]
        refine List.any_eq_true.mpr ⟨entry, hentry, ?_⟩
        simp [hsubject, hrelationship, Spelling.sameSubject_self]

/-! ### Submissions -/

/-- When a submission finds nothing to do: the promise does not take it, or takes it as it is and so
do the default promise and the subjects. -/
theorem submit_eq_self {fuel : Nat} (hl : s.Holds vessel role l) (hid : l.any (·.id = id) = true)
    (h : (l.find? (·.id = id) >>= Promise.receive names kind submission) = none ∨
      ∃ q, l.find? (·.id = id) = some q ∧ q.receive names kind submission = some q ∧
      (kind = .pr → s.discoverSubmitted names submission = s ∧
      (s.defaultPrOpen vessel role = true → applyPromiseAt names fuel s vessel role
      (.submit "template/pr" .pr .template submission) = s))) :
    applyPromiseAt names (fuel + 1) s vessel role (.submit id kind source submission) = s := by
  have hdeclared : s.modifyOwned vessel role (declare vessel role id kind source) = s :=
    hl.modifyOwned_eq_self (declare_idem hid)
  unfold applyPromiseAt
  split
  case isTrue => rfl
  case isFalse =>
    dsimp only
    rw [hdeclared, hl.owned_eq]
    rcases h with hnone | ⟨q, hfind, hreceive, hpr⟩
    · rw [hnone]
    · have hsubmitted : s.modifyOwned vessel role (modifyFirst (·.id = id) fun _ => q) = s := by
        apply hl.modifyOwned_eq_self
        refine modifyFirst_eq_self fun a ha => ?_
        rw [hfind] at ha
        exact Option.some.inj ha
      rw [hfind, Option.bind_eq_bind, Option.bind_some, hreceive]
      dsimp only
      rw [hsubmitted]
      split
      case isTrue hkind =>
        obtain ⟨hdiscover, hdefault⟩ := hpr hkind
        split
        case isTrue hopen => rw [hdefault hopen, hdiscover]
        case isFalse => exact hdiscover
      case isFalse => rfl

/-- What the two halves of a submission leave: the promise took it, and so did an open default
promise unless it refuses it. -/
structure Received (names : Spelling) (s : ConvoyStatus) (vessel role id : String)
    (submission : Submission) (l : List Promise) (q : Promise) : Prop where
  holds : s.Holds vessel role l
  found : l.find? (·.id = id) = some q
  again : q.receive names .pr submission = some q
  default : s.defaultPrOpen vessel role = true →
    l.any (·.id = "template/pr") = true ∧
      (l.find? (·.id = "template/pr") >>= Promise.receive names .pr submission) = none

theorem Received.submit_eq_self (h : Received names s vessel role id submission l q) :
    applyPromise names (s.discoverSubmitted names submission) vessel role
        (.submit id .pr source submission) = s.discoverSubmitted names submission := by
  have hholds : (s.discoverSubmitted names submission).Holds vessel role l :=
    h.holds.of_promises_eq (discoverSubmitted_promises submission)
  have hopen : (s.discoverSubmitted names submission).defaultPrOpen vessel role =
      s.defaultPrOpen vessel role := by
    unfold defaultPrOpen
    rw [hholds.owned_eq, h.holds.owned_eq]
  refine ConvoyStatus.submit_eq_self hholds ?_ (.inr ⟨q, h.found, h.again, fun _ => ?_⟩)
  · exact any_of_find? h.found
  refine ⟨discoverSubmitted_idem submission, fun hdefault => ?_⟩
  obtain ⟨hid, hnone⟩ := h.default (hopen ▸ hdefault)
  exact ConvoyStatus.submit_eq_self hholds hid (.inl hnone)

/-- With distinct ids an open default promise is the one found under its id. -/
theorem find?_default (hl : (l.map Promise.id).Nodup)
    (hopen : (l.any fun p => p.isDefaultPr && p.state = .isOpen) = true) :
    ∃ d, l.find? (·.id = "template/pr") = some d ∧ d.state = .isOpen := by
  obtain ⟨d, hd, hdefault⟩ := List.any_eq_true.mp hopen
  simp only [Promise.isDefaultPr, Bool.and_eq_true, decide_eq_true_eq] at hdefault
  obtain ⟨⟨⟨hid, -⟩, -⟩, hstate⟩ := hdefault
  refine ⟨d, ?_, hstate⟩
  cases hfind : l.find? (·.id = "template/pr") with
  | none => exact absurd hid (by simpa using List.find?_eq_none.mp hfind d hd)
  | some e =>
    obtain ⟨he, heid⟩ := of_find? hfind
    rw [List.inj_on_of_nodup_map hl he hd (heid.trans hid.symm)]

/-- A promise that takes what replaces it is found again, and what replaces it is not open. -/
theorem find?_received
    (h : (l.find? (·.id = id) >>= Promise.receive names kind submission) = some received) :
    (modifyFirst (·.id = id) (fun _ => received) l).find? (·.id = id) = some received ∧
      received.id = id := by
  obtain ⟨p, hfind, hreceive⟩ := Option.bind_eq_some_iff.mp h
  have hid : received.id = id := (Promise.receive_id hreceive).trans (of_find? hfind).2
  refine ⟨?_, hid⟩
  rw [find?_modifyFirst fun _ _ => by simp [hid], hfind]
  rfl

theorem nodup_received (hid : received.id = id) (hl : (l.map Promise.id).Nodup) :
    ((modifyFirst (·.id = id) (fun _ => received) l).map Promise.id).Nodup := by
  rw [map_modifyFirst]
  · exact hl
  · intro a ha
    rw [hid]
    exact (of_decide_eq_true ha).symm

/-- The deliverer's default promise after it was offered the submission as well. -/
theorem received_default (hphase : s.phase.isTerminal = false) (hl : (l.map Promise.id).Nodup)
    (hholds : s.Holds vessel role l) (hfound : l.find? (·.id = id) = some q)
    (hagain : q.receive names .pr submission = some q) (hclosed : q.state ≠ .isOpen)
    (hopen : s.defaultPrOpen vessel role = true) :
    ∃ l', Received names (applyPromiseAt names 1 s vessel role
      (.submit "template/pr" .pr .template submission)) vessel role id submission l' q := by
  have hany := hopen
  rw [defaultPrOpen, hholds.owned_eq] at hany
  obtain ⟨d, hd, hdopen⟩ := find?_default hl hany
  have hhas : l.any (·.id = "template/pr") = true := any_of_find? hd
  have hdeclared : s.modifyOwned vessel role
      (declare vessel role "template/pr" .pr .template) = s :=
    hholds.modifyOwned_eq_self (declare_idem hhas)
  unfold applyPromiseAt
  rw [if_neg (by simp [hphase])]
  dsimp only
  rw [hdeclared, hholds.owned_eq]
  cases hreceive : l.find? (·.id = "template/pr") >>= Promise.receive names .pr submission with
  | none => exact ⟨l, hholds, hfound, hagain, fun _ => ⟨hhas, hreceive⟩⟩
  | some d' =>
    obtain ⟨hfound', hid'⟩ := find?_received hreceive
    -- The promise itself took the submission already, so it is not the open default one.
    have hne : id ≠ "template/pr" := by
      rintro rfl
      rw [hd] at hfound
      exact hclosed (Option.some.inj hfound ▸ hdopen)
    have hholds' := holds_modifyOwned s vessel role
      (modifyFirst (·.id = "template/pr") fun _ => d')
    rw [hholds.owned_eq] at hholds'
    dsimp only
    rw [if_pos rfl, show ∀ t, applyPromiseAt names 0 t vessel role
      (.submit "template/pr" .pr .template submission) = t from fun _ => rfl, ite_self]
    refine ⟨_, hholds'.of_promises_eq (discoverSubmitted_promises submission), ?_, hagain,
      fun hstill => ?_⟩
    · rw [find?_modifyFirst_other, hfound]
      intro a ha
      have haid : a.id = "template/pr" := of_decide_eq_true ha
      exact ⟨by simp [haid, hne.symm], by simp [hid', hne.symm]⟩
    · -- The default promise took it, so none is open.
      rw [defaultPrOpen, (hholds'.of_promises_eq (discoverSubmitted_promises submission)).owned_eq]
        at hstill
      obtain ⟨e, he, heopen⟩ := find?_default (nodup_received hid' hl) hstill
      rw [hfound'] at he
      obtain ⟨p, -, hp⟩ := Option.bind_eq_some_iff.mp hreceive
      exact absurd (Option.some.inj he ▸ heopen) (Promise.receive_not_open hp)

/-- A submission, after the promise is declared. -/
theorem applyPromiseAt_submit {d : ConvoyStatus} (hphase : s.phase.isTerminal = false)
    (hd : s.modifyOwned vessel role (declare vessel role id kind source) = d) (fuel : Nat) :
    applyPromiseAt names (fuel + 1) s vessel role (.submit id kind source submission) =
      match (d.owned vessel role).find? (·.id = id) >>=
          Promise.receive names kind submission with
      | none => d
      | some received =>
        if kind = .pr then
          (if (d.modifyOwned vessel role
                (modifyFirst (·.id = id) fun _ => received)).defaultPrOpen vessel role then
              applyPromiseAt names fuel
                (d.modifyOwned vessel role (modifyFirst (·.id = id) fun _ => received)) vessel role
                (.submit "template/pr" .pr .template submission)
            else d.modifyOwned vessel role
              (modifyFirst (·.id = id) fun _ => received)).discoverSubmitted names submission
        else d.modifyOwned vessel role (modifyFirst (·.id = id) fun _ => received) := by
  refine (if_neg (by simp [hphase])).trans ?_
  subst hd
  cases hfound : ((s.modifyOwned vessel role (declare vessel role id kind source)).owned vessel
      role).find? (·.id = id) >>= Promise.receive names kind submission with
  | none => simp only [hfound]
  | some received => simp only [hfound]

theorem submit_idem (hphase : s.phase.isTerminal = false)
    (hs : ((s.owned vessel role).map Promise.id).Nodup) :
    applyPromise names (applyPromise names s vessel role (.submit id kind source submission))
        vessel role (.submit id kind source submission) =
      applyPromise names s vessel role (.submit id kind source submission) := by
  obtain ⟨d, declared, hd, hdphase, hdeclared, hid, hnodup⟩ : ∃ d declared,
      s.modifyOwned vessel role (declare vessel role id kind source) = d ∧
        d.phase.isTerminal = false ∧ d.Holds vessel role declared ∧
        declared.any (·.id = id) = true ∧ (declared.map Promise.id).Nodup :=
    ⟨_, _, rfl, hphase, holds_modifyOwned s vessel role _, any_id_declare id kind source,
      nodup_declare hs⟩
  have hstep : applyPromise names s vessel role (.submit id kind source submission) = _ :=
    applyPromiseAt_submit hphase hd 1
  rw [hdeclared.owned_eq] at hstep
  cases hreceive : declared.find? (·.id = id) >>= Promise.receive names kind submission with
  | none =>
    rw [hreceive] at hstep
    rw [hstep]
    exact submit_eq_self hdeclared hid (.inl hreceive)
  | some received =>
    rw [hreceive] at hstep
    dsimp only at hstep
    obtain ⟨hfound, hrid⟩ := find?_received hreceive
    obtain ⟨p, -, hp⟩ := Option.bind_eq_some_iff.mp hreceive
    have hagain := Promise.receive_again hp
    have hholds := holds_modifyOwned d vessel role (modifyFirst (·.id = id) fun _ => received)
    rw [hdeclared.owned_eq] at hholds
    have hnodup' := nodup_received hrid hnodup
    have hsphase : (d.modifyOwned vessel role
      (modifyFirst (·.id = id) fun _ => received)).phase.isTerminal = false := hdphase
    generalize d.modifyOwned vessel role (modifyFirst (·.id = id) fun _ => received) = submitted
      at hstep hholds hsphase
    by_cases hkind : kind = .pr
    · subst hkind
      by_cases hopen : submitted.defaultPrOpen vessel role = true
      · rw [if_pos hopen] at hstep
        obtain ⟨l', hreceived⟩ := received_default hsphase hnodup' hholds hfound hagain
          (Promise.receive_not_open hp) hopen
        rw [hstep]
        exact hreceived.submit_eq_self
      · rw [if_neg hopen] at hstep
        rw [hstep]
        exact Received.submit_eq_self ⟨hholds, hfound, hagain, fun h => absurd h hopen⟩
    · rw [if_neg hkind] at hstep
      rw [hstep]
      exact submit_eq_self hholds (any_of_find? hfound)
        (.inr ⟨received, hfound, hagain, fun h => absurd h hkind⟩)

/-! ### Every operation -/

theorem applyPromise_terminal (hs : s.phase.isTerminal = true) (operation : PromiseOperation) :
    applyPromise names s vessel role operation = s := by
  unfold applyPromise applyPromiseAt
  rw [if_pos hs]

theorem applyPromise_declare (hs : s.phase.isTerminal = false) (id : String) (kind : PromiseKind)
    (source : PromiseSource) : applyPromise names s vessel role (.declare id kind source) =
      s.modifyOwned vessel role (declare vessel role id kind source) := by
  unfold applyPromise applyPromiseAt
  rw [if_neg (by simp [hs])]

theorem applyPromise_retract (hs : s.phase.isTerminal = false) (id reason : String) :
    applyPromise names s vessel role (.retract id reason) = s.modifyHeld vessel role
      (modifyFirst (fun p => p.id = id && p.retractable) (Promise.retract reason)) := by
  unfold applyPromise applyPromiseAt
  rw [if_neg (by simp [hs])]

theorem applyPromise_verdict (hs : s.phase.isTerminal = false) (id reference : String)
    (submittedAt : DateTime) (verdict : SubmissionVerdict) :
    applyPromise names s vessel role (.verdict id reference submittedAt verdict) =
      s.modifyHeld vessel role (modifyFirst (fun p => p.id = id && p.state = .submitted)
        (Promise.judge reference submittedAt verdict)) := by
  unfold applyPromise applyPromiseAt
  rw [if_neg (by simp [hs])]

/-- **A promise operation made twice** is made once, where the crew member's ids are distinct. -/
theorem applyPromise_idem (names : Spelling) {s : ConvoyStatus} {vessel role : String}
    (hs : ((s.owned vessel role).map Promise.id).Nodup) (operation : PromiseOperation) :
    applyPromise names (applyPromise names s vessel role operation) vessel role operation =
      applyPromise names s vessel role operation := by
  rcases Bool.eq_false_or_eq_true s.phase.isTerminal with hphase | hphase
  · rw [applyPromise_terminal hphase, applyPromise_terminal hphase]
  cases operation with
  | declare id kind source =>
    rw [applyPromise_declare hphase]
    have hlive : (s.modifyOwned vessel role
      (declare vessel role id kind source)).phase.isTerminal = false := hphase
    rw [applyPromise_declare hlive]
    exact (holds_modifyOwned s vessel role _).modifyOwned_eq_self
      (declare_idem (any_id_declare id kind source))
  | submit id kind source submission => exact submit_idem hphase hs
  | retract id reason =>
    rw [applyPromise_retract hphase]
    have hlive : (s.modifyHeld vessel role (modifyFirst (fun p => p.id = id && p.retractable)
      (Promise.retract reason))).phase.isTerminal = false := hphase
    rw [applyPromise_retract hlive]
    refine modifyHeld_idem (modifyFirst_idem_of_key (k := id) ?_ ?_ hs)
    · intro p hp
      exact of_decide_eq_true (Bool.and_eq_true_iff.mp hp).1
    · exact fun _ _ _ => rfl
  | verdict id reference submittedAt verdict =>
    rw [applyPromise_verdict hphase]
    have hlive : (s.modifyHeld vessel role (modifyFirst (fun p => p.id = id && p.state = .submitted)
      (Promise.judge reference submittedAt verdict))).phase.isTerminal = false := hphase
    rw [applyPromise_verdict hlive]
    refine modifyHeld_idem (modifyFirst_idem_of_key (k := id) ?_ ?_ hs)
    · intro p hp
      exact of_decide_eq_true (Bool.and_eq_true_iff.mp hp).1
    · intro p _ hp
      exact Promise.judge_judge (of_decide_eq_true (Bool.and_eq_true_iff.mp hp).2)

end ConvoyStatus

end Flotilla.Status
