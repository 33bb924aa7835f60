import Flotilla.Status.Promises

/-!
# What the promises of a convoy keep

The state of a promise agrees with the verdicts on its submissions, whatever
operations and handoffs happened, and nothing that was recorded is lost.

* `Promise.Consistent` : what the state says about the submissions, kept by
  `Promise.receive_spec`, `Promise.retract_spec` and `Promise.judge_spec`.
* `Revises` : an operation on what one crew member holds
  (`applyPromiseAt_revises`); `applyPromiseAt_eq` bounds its recursion.
* `Sound` : what holds of every crew's promises.
* `Carries` : what one status keeps of the promises of an earlier one.
* `promiseSteps_sound` : both, over every sequence of operations and handoffs.
-/

namespace Flotilla.Status

open Lib

/-! ### What holds of a promise -/

def Submission.Rejected (x : Submission) : Prop := ∃ v, x.verdict = some v ∧ v.accepted = false

def Submission.Accepted (x : Submission) : Prop := ∃ v, x.verdict = some v ∧ v.accepted = true

/-- What the state of a promise says about its submissions. -/
def Promise.Consistent (p : Promise) : Prop :=
  match p.state with
  | .isOpen => ∀ x ∈ p.submissions, x.Rejected
  | .submitted => ∃ earlier last,
      p.submissions = earlier ++ [last] ∧ last.verdict = none ∧ ∀ x ∈ earlier, x.Rejected
  | .kept => ∃ earlier last,
      p.submissions = earlier ++ [last] ∧ last.Accepted ∧ ∀ x ∈ earlier, x.Rejected
  | .retracted => p.submissions = []

/-- `y` is the submission `x` at a later time: its metadata may have changed, and it may have been
judged. -/
structure Submission.Recorded (x y : Submission) : Prop where
  reference : y.reference = x.reference
  submittedAt : y.submittedAt = x.submittedAt
  verdict : ∀ v, x.verdict = some v → y.verdict = some v

/-- Every submission of `l` is still there in its place, and more may follow. -/
def Extends (l l' : List Submission) : Prop :=
  ∃ kept more, l' = kept ++ more ∧ List.Forall₂ Submission.Recorded l kept

theorem Submission.Recorded.refl (x : Submission) : x.Recorded x := ⟨rfl, rfl, fun _ h => h⟩

theorem Submission.Recorded.trans {x y z : Submission} (hxy : x.Recorded y) (hyz : y.Recorded z) :
    x.Recorded z :=
  ⟨hyz.reference.trans hxy.reference, hyz.submittedAt.trans hxy.submittedAt,
    fun v hv => hyz.verdict v (hxy.verdict v hv)⟩

theorem Extends.refl (l : List Submission) : Extends l l :=
  ⟨l, [], by simp, List.forall₂_same.mpr fun x _ => .refl x⟩

theorem Extends.append (l more : List Submission) : Extends l (l ++ more) :=
  ⟨l, more, rfl, List.forall₂_same.mpr fun x _ => .refl x⟩

theorem Submission.Recorded.trans_list {l l' l'' : List Submission}
    (h : List.Forall₂ Submission.Recorded l l') (h' : List.Forall₂ Submission.Recorded l' l'') :
    List.Forall₂ Submission.Recorded l l'' := by
  induction h generalizing l'' with
  | nil => exact h'
  | cons hxy _ ih =>
    cases h' with
    | cons hyz h' => exact .cons (hxy.trans hyz) (ih h')

theorem Extends.trans {l l' l'' : List Submission} (h : Extends l l') (h' : Extends l' l'') :
    Extends l l'' := by
  obtain ⟨kept, more, rfl, hkept⟩ := h
  obtain ⟨kept', more', rfl, hkept'⟩ := h'
  obtain ⟨a, b, rfl, ha, -⟩ : ∃ a b, kept' = a ++ b ∧
      List.Forall₂ Submission.Recorded kept a ∧ List.Forall₂ Submission.Recorded more b :=
    ⟨kept'.take kept.length, kept'.drop kept.length, (List.take_append_drop _ _).symm,
      by simpa using List.forall₂_take kept.length hkept',
      by simpa using List.forall₂_drop kept.length hkept'⟩
  refine ⟨a, b ++ more', by simp, ?_⟩
  exact Submission.Recorded.trans_list hkept ha

/-- A change of the last submission that keeps what is recorded of it. -/
theorem Extends.modifyLast {f : Submission → Submission} {earlier : List Submission}
    {last : Submission} (h : last.Recorded (f last)) :
    Extends (earlier ++ [last]) (Lib.modifyLast f (earlier ++ [last])) := by
  rw [modifyLast_append_singleton]
  refine ⟨earlier ++ [f last], [], by simp, ?_⟩
  exact List.rel_append (List.forall₂_same.mpr fun x _ => .refl x) (.cons h .nil)

/-- `q` is the promise `p` after an operation on it. -/
structure Promise.Follows (p q : Promise) : Prop where
  id : q.id = p.id
  vessel : q.vessel = p.vessel
  role : q.role = p.role
  final : p.state.terminal = true → q.state = p.state
  submissions : Extends p.submissions q.submissions

theorem Promise.Follows.refl (p : Promise) : p.Follows p :=
  ⟨rfl, rfl, rfl, fun _ => rfl, .refl _⟩

theorem Promise.Follows.trans {p q r : Promise} (h : p.Follows q) (h' : q.Follows r) :
    p.Follows r where
  id := h'.id.trans h.id
  vessel := h'.vessel.trans h.vessel
  role := h'.role.trans h.role
  final hp := by rw [h'.final (by rw [h.final hp]; exact hp), h.final hp]
  submissions := h.submissions.trans h'.submissions

/-! ### One operation on a promise -/

namespace Promise

variable {names : Spelling} {p q : Promise}

theorem receive_spec {kind : PromiseKind} {submission : Submission}
    (hnew : submission.verdict = none) (hp : p.Consistent)
    (h : p.receive names kind submission = some q) : q.Consistent ∧ p.Follows q := by
  unfold receive at h
  split at h
  case isTrue hstate =>
    -- The submitted subject again: only the metadata of the last submission changes.
    split at h
    case h_1 prior hlast =>
      split at h
      case isTrue =>
        cases h
        have hsplit : p.submissions = p.submissions.dropLast ++ [prior] :=
          (List.dropLast_append_getLast? prior hlast).symm
        have hrec :
            prior.Recorded { prior with metadata := prior.metadata ∪ submission.metadata } :=
          ⟨rfl, rfl, fun _ h => h⟩
        refine ⟨?_, rfl, rfl, rfl, fun _ => rfl, ?_⟩
        · rcases hstate.2 with hs | hs <;>
          · simp only [Consistent, hs] at hp ⊢
            obtain ⟨earlier, last, heq, hverdict, hrej⟩ := hp
            rw [heq, modifyLast_append_singleton]
            exact ⟨earlier, _, rfl, hverdict, hrej⟩
        · rw [hsplit]
          exact Extends.modifyLast hrec
      case isFalse => cases h
    case h_2 => cases h
  case isFalse hstate =>
    split at h
    case isTrue => cases h
    case isFalse htaken =>
      split at h
      case isTrue => cases h
      case isFalse =>
        cases h
        have hopen : p.state = .isOpen := by
          push Not at hstate htaken
          cases hs : p.state with
          | isOpen => rfl
          | submitted => exact absurd hs (hstate htaken.1).1
          | kept => exact absurd hs (hstate htaken.1).2
          | retracted => exact absurd (by rw [hs]; rfl) htaken.2
        refine ⟨?_, rfl, rfl, rfl, fun hterm => ?_, Extends.append _ _⟩
        · simp only [Consistent, hopen] at hp
          exact ⟨p.submissions, submission, rfl, hnew, hp⟩
        · rw [hopen] at hterm
          cases hterm

theorem retract_spec {reason : String} (hp : p.retractable = true) :
    (p.retract reason).Consistent ∧ p.Follows (p.retract reason) := by
  simp only [retractable, Bool.and_eq_true, Bool.not_eq_true', decide_eq_true_eq] at hp
  refine ⟨hp.2, rfl, rfl, rfl, fun hterm => ?_, .refl _⟩
  rw [hp.1.1] at hterm
  cases hterm

theorem judge_spec {reference : String} {submittedAt : DateTime} {verdict : SubmissionVerdict}
    (hstate : p.state = .submitted) (hp : p.Consistent) :
    (p.judge reference submittedAt verdict).Consistent ∧
      p.Follows (p.judge reference submittedAt verdict) := by
  have hnonterminal : p.state.terminal = true → False := by rw [hstate]; exact Bool.noConfusion
  simp only [Consistent, hstate] at hp
  obtain ⟨earlier, last, heq, hnone, hrej⟩ := hp
  unfold judge
  rw [heq, List.getLast?_append, List.getLast?_singleton]
  dsimp only [Option.or]
  split
  case isTrue hmatch =>
    have hrec : last.Recorded { last with verdict := some verdict } :=
      ⟨rfl, rfl, fun v hv => by rw [hnone] at hv; cases hv⟩
    rw [← heq]
    refine ⟨?_, rfl, rfl, rfl, fun hterm => (hnonterminal hterm).elim, ?_⟩
    · cases hacc : verdict.accepted with
      | true =>
        rw [heq, modifyLast_append_singleton]
        exact ⟨earlier, _, rfl, ⟨verdict, rfl, hacc⟩, hrej⟩
      | false =>
        rw [heq, modifyLast_append_singleton]
        exact forall_mem_concat hrej ⟨verdict, rfl, hacc⟩
    · rw [heq]
      exact Extends.modifyLast hrec
  case isFalse =>
    refine ⟨?_, .refl p⟩
    simp only [Consistent, hstate]
    exact ⟨earlier, last, heq, hnone, hrej⟩

end Promise

/-! ### One operation on what a crew member holds -/

/-- What holds of the promises a crew member holds. -/
structure HoldsAs (vessel role : String) (l : List Promise) : Prop where
  distinct : (l.map Promise.id).Nodup
  named : ∀ p ∈ l, p.vessel = vessel ∧ p.role = role
  consistent : ∀ p ∈ l, p.Consistent

/-- Every promise of `l` is still there after an operation. -/
def Keeps (l l' : List Promise) : Prop := ∀ p ∈ l, ∃ q ∈ l', p.Follows q

theorem Keeps.refl (l : List Promise) : Keeps l l := fun p hp => ⟨p, hp, .refl p⟩

theorem Keeps.trans {l l' l'' : List Promise} (h : Keeps l l') (h' : Keeps l' l'') :
    Keeps l l'' := by
  intro p hp
  obtain ⟨q, hq, hpq⟩ := h p hp
  obtain ⟨r, hr, hqr⟩ := h' q hq
  exact ⟨r, hr, hpq.trans hqr⟩

theorem HoldsAs.nil (vessel role : String) : HoldsAs vessel role [] :=
  ⟨List.nodup_nil, fun _ hp => absurd hp List.not_mem_nil, fun _ hp => absurd hp List.not_mem_nil⟩

variable {l : List Promise} {role vessel : String} {s : ConvoyStatus}

/-- The id tells the promises of a crew member apart. -/
theorem HoldsAs.eq_of_id (h : HoldsAs vessel role l) {p q : Promise} (hp : p ∈ l) (hq : q ∈ l)
    (hid : p.id = q.id) : p = q :=
  List.inj_on_of_nodup_map h.distinct hp hq hid

theorem HoldsAs.append_singleton (h : HoldsAs vessel role l) {p : Promise}
    (hid : ∀ q ∈ l, q.id ≠ p.id) (hvessel : p.vessel = vessel) (hrole : p.role = role)
    (hp : p.Consistent) : HoldsAs vessel role (l ++ [p]) := by
  refine ⟨?_, forall_mem_concat h.named ⟨hvessel, hrole⟩, forall_mem_concat h.consistent hp⟩
  rw [List.map_append, List.nodup_append]
  refine ⟨h.distinct, by simp, ?_⟩
  intro a ha b hb
  obtain ⟨q, hq, rfl⟩ := List.mem_map.mp ha
  rw [List.map_singleton, List.mem_singleton] at hb
  rw [hb]
  exact hid q hq

/-- An operation on the first promise that satisfies `p`. -/
theorem HoldsAs.modifyFirst (h : HoldsAs vessel role l) {p : Promise → Bool} {f : Promise → Promise}
    (hf : ∀ a ∈ l, p a = true → (f a).Consistent ∧ a.Follows (f a)) :
    HoldsAs vessel role (Lib.modifyFirst p f l) ∧ Keeps l (Lib.modifyFirst p f l) := by
  refine ⟨⟨?_, ?_, ?_⟩, ?_⟩
  · have hids : (Lib.modifyFirst p f l).map Promise.id = l.map Promise.id := by
      clear h
      induction l with
      | nil => rfl
      | cons a l ih =>
        cases hp : p a with
        | true => simp [modifyFirst_cons_of_pos hp, (hf a (by simp) hp).2.id]
        | false => simp [modifyFirst_cons_of_neg hp, ih fun b hb => hf b (by simp [hb])]
    rw [hids]
    exact h.distinct
  · intro q hq
    rcases mem_modifyFirst hq with hq | ⟨a, ha, hpa, rfl⟩
    · exact h.named q hq
    · rw [(hf a ha hpa).2.vessel, (hf a ha hpa).2.role]
      exact h.named a ha
  · intro q hq
    rcases mem_modifyFirst hq with hq | ⟨a, ha, hpa, rfl⟩
    · exact h.consistent q hq
    · exact (hf a ha hpa).1
  · intro a ha
    rcases exists_mem_modifyFirst ha with hmem | ⟨hpa, hmem⟩
    · exact ⟨a, hmem, .refl a⟩
    · exact ⟨f a, hmem, (hf a ha hpa).2⟩

theorem HoldsAs.declare (h : HoldsAs vessel role l) (id : String) (kind : PromiseKind)
    (source : PromiseSource) :
    HoldsAs vessel role (ConvoyStatus.declare vessel role id kind source l) ∧
      Keeps l (ConvoyStatus.declare vessel role id kind source l) := by
  unfold ConvoyStatus.declare
  split
  case isTrue => exact ⟨h, .refl l⟩
  case isFalse hfree =>
    refine ⟨h.append_singleton ?_ rfl rfl ?_, fun p hp => ⟨p, List.mem_append_left _ hp, .refl p⟩⟩
    · intro q hq hid
      exact hfree (List.any_eq_true.mpr ⟨q, hq, by simpa using hid⟩)
    · exact fun x hx => absurd hx List.not_mem_nil

/-! ### One operation on the status -/

/-- From `s` to `s'` only what the crew member holds was operated on. -/
structure Revises (vessel role : String) (s s' : ConvoyStatus) : Prop where
  others : ∀ v r, ¬ (vessel = v ∧ role = r) → s'.owned v r = s.owned v r
  here : HoldsAs vessel role (s.owned vessel role) →
    HoldsAs vessel role (s'.owned vessel role) ∧ Keeps (s.owned vessel role) (s'.owned vessel role)

namespace Revises

variable {s' s'' : ConvoyStatus}

theorem of_promises_eq (h : s'.promises = s.promises) : Revises vessel role s s' := by
  have howned : ∀ v r, s'.owned v r = s.owned v r := by
    intro v r
    unfold ConvoyStatus.owned
    rw [h]
  refine ⟨fun v r _ => howned v r, fun hs => ?_⟩
  rw [howned]
  exact ⟨hs, .refl _⟩

theorem trans (h : Revises vessel role s s') (h' : Revises vessel role s' s'') :
    Revises vessel role s s'' where
  others v r hvr := (h'.others v r hvr).trans (h.others v r hvr)
  here hs := by
    obtain ⟨hs', hkeep⟩ := h.here hs
    obtain ⟨hs'', hkeep'⟩ := h'.here hs'
    exact ⟨hs'', hkeep.trans hkeep'⟩

theorem of_owned {f : List Promise → List Promise}
    (howned : ∀ v r, s'.owned v r =
      if vessel = v ∧ role = r then f (s.owned vessel role) else s.owned v r)
    (hf : HoldsAs vessel role (s.owned vessel role) →
      HoldsAs vessel role (f (s.owned vessel role)) ∧
        Keeps (s.owned vessel role) (f (s.owned vessel role))) : Revises vessel role s s' := by
  refine ⟨fun v r hvr => by rw [howned, if_neg hvr], fun hs => ?_⟩
  rw [howned, if_pos ⟨rfl, rfl⟩]
  exact hf hs

end Revises

namespace ConvoyStatus

variable {names : Spelling}

theorem discoverSubject_promises (subject : Subject) (relationship : Relationship)
    (source : SubjectDiscoverySource) (at_ : DateTime) :
    (s.discoverSubject subject relationship source at_).promises = s.promises := by
  unfold discoverSubject
  split <;> rfl

theorem discoverSubmitted_promises (submission : Submission) :
    (s.discoverSubmitted names submission).promises = s.promises := by
  unfold discoverSubmitted
  split
  case h_1 =>
    split
    case isTrue => rfl
    case isFalse => exact discoverSubject_promises _ _ _ _
  case h_2 => rfl

end ConvoyStatus

/-- A submission arrives without a verdict. -/
def PromiseOperation.Unjudged : PromiseOperation → Prop
  | .submit _ _ _ submission => submission.verdict = none
  | _ => True

namespace ConvoyStatus

variable {names : Spelling}

theorem declare_revises (s : ConvoyStatus) (vessel role id : String) (kind : PromiseKind)
    (source : PromiseSource) :
    Revises vessel role s (s.modifyOwned vessel role (declare vessel role id kind source)) :=
  .of_owned (owned_modifyOwned _) fun hs => hs.declare id kind source

variable {operation : PromiseOperation} {received : Promise} {submission : Submission}

/-- The promise found under `id` takes the submission. -/
theorem receive_revises {id : String} {kind : PromiseKind} (hnew : submission.verdict = none)
    (h : ((s.owned vessel role).find? (·.id = id) >>= Promise.receive names kind submission) =
      some received) :
    Revises vessel role s
      (s.modifyOwned vessel role (modifyFirst (·.id = id) fun _ => received)) := by
  refine .of_owned (owned_modifyOwned _) fun hs => hs.modifyFirst ?_
  obtain ⟨p, hfind, hreceive⟩ := Option.bind_eq_some_iff.mp h
  obtain ⟨hp, hid⟩ := of_find? hfind
  intro a ha haid
  have hap : a = p := hs.eq_of_id ha hp (by rw [hid]; simpa using haid)
  rw [hap]
  exact Promise.receive_spec hnew (hs.consistent p hp) hreceive

theorem applyPromiseAt_revises (fuel : Nat) (hop : operation.Unjudged) (s : ConvoyStatus) :
    Revises vessel role s (applyPromiseAt names fuel s vessel role operation) := by
  -- Induction on the depth of the recursion: the call for the default promise is an operation too.
  induction fuel generalizing s operation with
  | zero => exact .of_promises_eq rfl
  | succ fuel ih =>
    unfold applyPromiseAt
    split
    case isTrue => exact .of_promises_eq rfl
    case isFalse =>
      cases operation with
      | declare id kind source => exact declare_revises s vessel role id kind source
      | submit id kind source submission =>
        have hdeclared := declare_revises s vessel role id kind source
        dsimp only
        split
        case h_1 => exact hdeclared
        case h_2 received hreceived =>
          have hsubmitted := hdeclared.trans (receive_revises hop hreceived)
          split
          case isTrue =>
            refine .trans ?_ (.of_promises_eq (discoverSubmitted_promises submission))
            split
            case isTrue =>
              have hdefault :
                  (PromiseOperation.submit "template/pr" .pr .template submission).Unjudged := hop
              exact hsubmitted.trans (ih hdefault _)
            case isFalse => exact hsubmitted
          case isFalse => exact hsubmitted
      | retract id reason =>
        refine .of_owned (owned_modifyHeld rfl) fun hs => hs.modifyFirst fun a _ h => ?_
        rw [Bool.and_eq_true] at h
        exact Promise.retract_spec h.2
      | verdict id reference submittedAt verdict =>
        refine .of_owned (owned_modifyHeld rfl) fun hs => hs.modifyFirst fun a ha h => ?_
        rw [Bool.and_eq_true, decide_eq_true_eq, decide_eq_true_eq] at h
        exact Promise.judge_spec h.2 (hs.consistent a ha)

/-- Once the default promise has taken a submission, no default promise is open. -/
theorem defaultPrOpen_received (hs : HoldsAs vessel role (s.owned vessel role))
    (hopen : s.defaultPrOpen vessel role = true) (hnew : submission.verdict = none)
    (h : ((s.owned vessel role).find? (·.id = "template/pr") >>=
      Promise.receive names .pr submission) = some received) :
    (s.modifyOwned vessel role
      (modifyFirst (·.id = "template/pr") fun _ => received)).defaultPrOpen vessel role =
          false := by
  have hafter := ((receive_revises hnew h).here hs).1
  obtain ⟨p, hfind, hreceive⟩ := Option.bind_eq_some_iff.mp h
  obtain ⟨hp, hpid⟩ := of_find? hfind
  obtain ⟨d, hd, hdefault⟩ := List.any_eq_true.mp hopen
  simp only [Promise.isDefaultPr, Bool.and_eq_true, decide_eq_true_eq] at hdefault
  obtain ⟨⟨⟨hdid, hdkind⟩, hdsource⟩, hdopen⟩ := hdefault
  have hdp : d = p := hs.eq_of_id hd hp (hdid.trans hpid.symm)
  subst hdp
  have hrid := (Promise.receive_spec hnew (hs.consistent d hp) hreceive).2.id
  have hsubmitted : received.state = .submitted := by
    unfold Promise.receive at hreceive
    rw [if_neg (by simp [hdopen])] at hreceive
    split at hreceive
    · cases hreceive
    · split at hreceive
      · cases hreceive
      · cases hreceive; rfl
  rw [owned_modifyOwned, if_pos ⟨rfl, rfl⟩] at hafter
  unfold defaultPrOpen
  rw [owned_modifyOwned, if_pos ⟨rfl, rfl⟩, List.any_eq_false]
  intro q hq hqdefault
  simp only [Promise.isDefaultPr, Bool.and_eq_true, decide_eq_true_eq] at hqdefault
  have hmem : received ∈ modifyFirst (·.id = "template/pr") (fun _ => received)
      (s.owned vessel role) := by
    apply List.mem_of_find?_eq_some
    rw [find?_modifyFirst (by simp [hrid, hpid]), hfind]
    rfl
  have hqr : q = received :=
    hafter.eq_of_id hq hmem (by rw [hqdefault.1.1.1, hrid, hpid])
  rw [hqr, hsubmitted] at hqdefault
  cases hqdefault.2

/-- The call for the default promise makes no further call. -/
theorem applyPromiseAt_default (hs : HoldsAs vessel role (s.owned vessel role))
    (hopen : s.defaultPrOpen vessel role = true) (hnew : submission.verdict = none) (fuel : Nat) :
    applyPromiseAt names (fuel + 1) s vessel role (.submit "template/pr" .pr .template submission) =
      applyPromiseAt names 1 s vessel role (.submit "template/pr" .pr .template submission) := by
  have hdeclared : (s.modifyOwned vessel role
      (declare vessel role "template/pr" .pr .template)).owned vessel role =
        s.owned vessel role := by
    rw [owned_modifyOwned, if_pos ⟨rfl, rfl⟩, declare, if_pos]
    obtain ⟨d, hd, hdefault⟩ := List.any_eq_true.mp hopen
    simp only [Promise.isDefaultPr, Bool.and_eq_true] at hdefault
    exact List.any_eq_true.mpr ⟨d, hd, hdefault.1.1.1⟩
  simp only [applyPromiseAt]
  split
  case isTrue => rfl
  case isFalse =>
    split
    case h_1 => rfl
    case h_2 received hreceived =>
      rw [defaultPrOpen_received (by rw [hdeclared]; exact hs)
        (by unfold defaultPrOpen; rw [hdeclared]; exact hopen) hnew hreceived]
      rfl

/-- **Two levels are the whole recursion** when the ids of the crew member are distinct. -/
theorem applyPromiseAt_eq (hop : operation.Unjudged)
    (hs : HoldsAs vessel role (s.owned vessel role)) (fuel : Nat) :
    applyPromiseAt names (fuel + 2) s vessel role operation =
      applyPromise names s vessel role operation := by
  unfold applyPromise applyPromiseAt
  split
  case isTrue => rfl
  case isFalse =>
    cases operation with
    | declare | retract | verdict => rfl
    | submit id kind source submission =>
      dsimp only
      split
      case h_1 => rfl
      case h_2 received hreceived =>
        have hsubmitted := ((declare_revises s vessel role id kind source).trans
          (receive_revises hop hreceived)).here hs
        by_cases hkind : kind = .pr
        · rw [if_pos hkind, if_pos hkind]
          split
          case isTrue hopen => rw [applyPromiseAt_default hsubmitted.1 hopen hop fuel]
          case isFalse => rfl
        · rw [if_neg hkind, if_neg hkind]

/-- A change request under its own name, while the default promise of the crew member is open:
the nested call submits it for both, and one level alone would leave the default open. -/
theorem applyPromiseAt_eq_nested :
    let names : Spelling := ⟨fun _ => none, fun _ => none, fun _ => none, toString⟩
    let s := applyPromise names {} "ship" "author" (.declare "template/pr" .pr .template)
    let submit := PromiseOperation.submit "fix" .pr .crew ⟨"o/r#1", ∅, 10, none⟩
    applyPromiseAt names 5 s "ship" "author" submit = applyPromise names s "ship" "author" submit ∧
      ((applyPromise names s "ship" "author" submit).owned "ship" "author").map (·.state) =
        [.submitted, .submitted] ∧
      (applyPromiseAt names 1 s "ship" "author" submit).defaultPrOpen "ship" "author" = true := by
  intro names s submit
  have hs : HoldsAs "ship" "author" (s.owned "ship" "author") :=
    ((declare_revises {} "ship" "author" "template/pr" .pr .template).here
      (.nil "ship" "author")).1
  exact ⟨applyPromiseAt_eq (by rfl) hs 3, by decide +kernel, by decide +kernel⟩

end ConvoyStatus

/-! ### What a status keeps of an earlier one -/

/-- What holds of every crew's promises. -/
def Sound (s : ConvoyStatus) : Prop := ∀ vessel role, HoldsAs vessel role (s.owned vessel role)

/-- Where the promises of `s` are in `s'`: `place` gives the role and the id under which a promise
of a vessel is held later. -/
structure Placed (s s' : ConvoyStatus) (place : String → String → String → String × String) :
    Prop where
  /-- A promise keeps every submission; a settled one keeps its owner, its id and its state. -/
  kept : ∀ vessel role, ∀ p ∈ s.owned vessel role,
    ∃ q ∈ s'.owned vessel (place vessel role p.id).1,
      q.id = (place vessel role p.id).2 ∧ Extends p.submissions q.submissions ∧
        (p.state.terminal = true →
          place vessel role p.id = (role, p.id) ∧ q.state = p.state)
  /-- Different promises stay different. -/
  apart : ∀ vessel role role', ∀ p ∈ s.owned vessel role, ∀ p' ∈ s.owned vessel role',
    place vessel role p.id = place vessel role' p'.id → role = role' ∧ p.id = p'.id

/-- Every promise of `s` is still there in `s'`, with every submission recorded. -/
def Carries (s s' : ConvoyStatus) : Prop := ∃ place, Placed s s' place

theorem Carries.refl (s : ConvoyStatus) : Carries s s :=
  ⟨fun _ role id => (role, id),
    fun _ _ p hp => ⟨p, hp, rfl, .refl _, fun _ => ⟨rfl, rfl⟩⟩,
    fun _ _ _ _ _ _ _ h => Prod.mk.inj h⟩

theorem Carries.trans {s s' s'' : ConvoyStatus} (h : Carries s s') (h' : Carries s' s'') :
    Carries s s'' := by
  obtain ⟨place, hplace⟩ := h
  obtain ⟨place', hplace'⟩ := h'
  refine ⟨fun vessel role id => place' vessel (place vessel role id).1 (place vessel role id).2,
    ?_, ?_⟩
  · intro vessel role p hp
    obtain ⟨q, hq, hqid, hpq, hpfinal⟩ := hplace.kept vessel role p hp
    obtain ⟨r, hr, hrid, hqr, hqfinal⟩ := hplace'.kept vessel _ q hq
    rw [hqid] at hr hrid hqfinal
    refine ⟨r, hr, hrid, hpq.trans hqr, fun hterm => ?_⟩
    obtain ⟨hstay, hstate⟩ := hpfinal hterm
    obtain ⟨hstay', hstate'⟩ := hqfinal (by rw [hstate]; exact hterm)
    rw [hstay', hstay, hstate', hstate]
    exact ⟨rfl, rfl⟩
  · intro vessel role role' p hp p' hp' hsame
    obtain ⟨q, hq, hqid, -⟩ := hplace.kept vessel role p hp
    obtain ⟨q', hq', hqid', -⟩ := hplace.kept vessel role' p' hp'
    have happart := hplace'.apart vessel _ _ q hq q' hq' (by rw [hqid, hqid']; exact hsame)
    rw [hqid, hqid'] at happart
    exact hplace.apart vessel role role' p hp p' hp' (Prod.ext happart.1 happart.2)

theorem Revises.sound {s s' : ConvoyStatus} (h : Revises vessel role s s') (hs : Sound s) :
    Sound s' := by
  intro v r
  by_cases hvr : vessel = v ∧ role = r
  · rw [← hvr.1, ← hvr.2]
    exact (h.here (hs vessel role)).1
  · rw [h.others v r hvr]
    exact hs v r

theorem Revises.carries {s s' : ConvoyStatus} (h : Revises vessel role s s') (hs : Sound s) :
    Carries s s' := by
  refine ⟨fun _ role id => (role, id), ?_, fun _ _ _ _ _ _ _ h => Prod.mk.inj h⟩
  intro v r p hp
  by_cases hvr : vessel = v ∧ role = r
  · obtain ⟨rfl, rfl⟩ := hvr
    obtain ⟨q, hq, hpq⟩ := (h.here (hs vessel role)).2 p hp
    exact ⟨q, hq, hpq.id, hpq.submissions, fun hterm => ⟨rfl, hpq.final hterm⟩⟩
  · refine ⟨p, ?_, rfl, .refl _, fun _ => ⟨rfl, rfl⟩⟩
    rw [h.others v r hvr]
    exact hp

/-! ### Handoffs keep them -/

section Handoff

open ConvoyStatus

theorem handoffId_injective (sender original : String) :
    Function.Injective (handoffId sender original) := by
  intro m n h
  have htext : toString m = toString n := (String.append_right_inj _).mp h
  exact Nat.repr_injective htext

variable {p : Promise}

theorem withProducer_consistent (sender : String) (h : p.Consistent) :
    (withProducer sender p).Consistent ∧
      Extends p.submissions (withProducer sender p).submissions := by
  unfold withProducer
  split
  case isFalse => exact ⟨h, .refl _⟩
  case isTrue =>
    refine ⟨?_, p.submissions.map _, [], (List.append_nil _).symm, ?_⟩
    · have hmap : ∀ {l : List Submission}, (∀ x ∈ l, x.Rejected) →
          ∀ x ∈ l.map (stampProducer sender), x.Rejected := by
        intro l hl x hx
        obtain ⟨y, hy, rfl⟩ := List.mem_map.mp hx
        exact hl y hy
      cases hstate : p.state with
      | isOpen =>
        simp only [Promise.Consistent, hstate] at h ⊢
        exact hmap h
      | submitted | kept =>
        simp only [Promise.Consistent, hstate] at h ⊢
        obtain ⟨earlier, last, heq, hlast, hrej⟩ := h
        refine ⟨earlier.map (stampProducer sender), stampProducer sender last, ?_, hlast, hmap hrej⟩
        rw [heq, List.map_append]
        rfl
      | retracted =>
        simp only [Promise.Consistent, hstate] at h ⊢
        rw [h]
        rfl
    · rw [List.forall₂_map_right_iff]
      exact List.forall₂_same.mpr fun x _ => ⟨rfl, rfl, fun _ h => h⟩

theorem withProducer_vessel (sender : String) (p : Promise) :
    (withProducer sender p).vessel = p.vessel := by
  unfold withProducer
  split <;> rfl

/-- One moved promise joins the target's under an id that is free there. -/
theorem moveTo_spec {target : String} (sender : String) {held : List Promise}
    (hheld : HoldsAs vessel target held) (hvessel : p.vessel = vessel) (hp : p.Consistent) :
    ∃ q, moveTo sender target held p = held ++ [q] ∧ HoldsAs vessel target (held ++ [q]) ∧
      (∀ h ∈ held, h.id ≠ q.id) ∧ Extends p.submissions q.submissions := by
  obtain ⟨hconsistent, hextends⟩ := withProducer_consistent sender hp
  have hfree : ∀ h ∈ held, h.id ≠
      if held.any (·.id = p.id) then firstFree (held.map Promise.id) (handoffId sender p.id)
      else p.id := by
    intro h hh
    split
    case isTrue =>
      intro heq
      apply firstFree_not_mem (held.map Promise.id) (handoffId_injective sender p.id)
      rw [← heq]
      exact List.mem_map_of_mem hh
    case isFalse hnone =>
      intro heq
      exact hnone (List.any_eq_true.mpr ⟨h, hh, by simpa using heq⟩)
  refine ⟨_, rfl, hheld.append_singleton hfree ?_ rfl hconsistent, hfree, hextends⟩
  exact (withProducer_vessel sender p).trans hvessel

/-- The moved promises join the target's, each under an id of its own. -/
theorem moveAll_spec {target : String} (sender : String) {moving held : List Promise}
    (hheld : HoldsAs vessel target held) (hdistinct : (moving.map Promise.id).Nodup)
    (hvessel : ∀ p ∈ moving, p.vessel = vessel) (hmoving : ∀ p ∈ moving, p.Consistent) :
    HoldsAs vessel target (moving.foldl (moveTo sender target) held) ∧
      (∀ h ∈ held, h ∈ moving.foldl (moveTo sender target) held) ∧
      ∃ newId : String → String,
        (∀ p ∈ moving, (∀ h ∈ held, h.id ≠ newId p.id) ∧
          ∃ q ∈ moving.foldl (moveTo sender target) held,
            q.id = newId p.id ∧ Extends p.submissions q.submissions) ∧
        ∀ p ∈ moving, ∀ p' ∈ moving, newId p.id = newId p'.id → p.id = p'.id := by
  -- Induction on the promises still to move; the ids given so far are among those held.
  induction moving generalizing held with
  | nil =>
    exact ⟨hheld, fun h hh => hh, id, fun p hp => absurd hp List.not_mem_nil,
      fun p hp => absurd hp List.not_mem_nil⟩
  | cons p moving ih =>
    obtain ⟨q, hmove, hheld', hfree, hext⟩ :=
      moveTo_spec sender hheld (hvessel p (by simp)) (hmoving p (by simp))
    rw [List.map_cons, List.nodup_cons] at hdistinct
    obtain ⟨hresult, hstay, newId, hnew, hinj⟩ := ih hheld' hdistinct.2
      (fun p' hp' => hvessel p' (by simp [hp'])) (fun p' hp' => hmoving p' (by simp [hp']))
    rw [List.foldl_cons, hmove]
    have hother : ∀ p' ∈ moving, p'.id ≠ p.id :=
      fun p' hp' heq => hdistinct.1 (heq ▸ List.mem_map_of_mem hp')
    refine ⟨hresult, fun h hh => hstay h (List.mem_append_left _ hh),
      Function.update newId p.id q.id, ?_, ?_⟩
    · intro p' hp'
      rcases List.mem_cons.mp hp' with rfl | hp'
      · rw [Function.update_self]
        exact ⟨hfree, q, hstay q (by simp), rfl, hext⟩
      · rw [Function.update_of_ne (hother p' hp')]
        obtain ⟨hnotHeld, hplaced⟩ := hnew p' hp'
        exact ⟨fun h hh => hnotHeld h (List.mem_append_left _ hh), hplaced⟩
    · intro a ha b hb hab
      rcases List.mem_cons.mp ha with rfl | ham <;> rcases List.mem_cons.mp hb with rfl | hbm
      · rfl
      · rw [Function.update_self, Function.update_of_ne (hother b hbm)] at hab
        exact absurd hab ((hnew b hbm).1 q (by simp))
      · rw [Function.update_self, Function.update_of_ne (hother a ham)] at hab
        exact absurd hab.symm ((hnew a ham).1 q (by simp))
      · rw [Function.update_of_ne (hother a ham), Function.update_of_ne (hother b hbm)] at hab
        exact hinj a ham b hbm hab

variable {sender target : String}

theorem HoldsAs.filter (h : HoldsAs vessel role l) (p : Promise → Bool) :
    HoldsAs vessel role (l.filter p) where
  distinct := h.distinct.sublist (List.filter_sublist.map _)
  named q hq := h.named q (List.mem_of_mem_filter hq)
  consistent q hq := h.consistent q (List.mem_of_mem_filter hq)

theorem handoff_sound_carries (hs : Sound s) :
    Sound (s.handoff vessel sender target) ∧ Carries s (s.handoff vessel sender target) := by
  by_cases hsame : sender = target
  · unfold handoff
    rw [if_pos hsame]
    exact ⟨hs, .refl s⟩
  have howned := owned_handoff s vessel hsame
  have hmoving := (hs vessel sender).filter (!·.state.terminal)
  obtain ⟨hresult, hstay, newId, hnew, hinj⟩ := moveAll_spec sender (hs vessel target)
    hmoving.distinct (fun p hp => (hmoving.named p hp).1) hmoving.consistent
  have hunsettled : ∀ p ∈ s.owned vessel sender, p.state.terminal = false →
      p ∈ (s.owned vessel sender).filter (!·.state.terminal) :=
    fun p hp hterm => List.mem_filter.mpr ⟨hp, by rw [hterm]; rfl⟩
  constructor
  · intro v r
    rw [howned]
    split
    case isTrue hvr => rw [hvr.1, hvr.2]; exact hresult
    case isFalse =>
      split
      case isTrue hvr => rw [hvr.1, hvr.2]; exact (hs vessel sender).filter _
      case isFalse => exact hs v r
  · -- Only an unsettled promise of the sender is placed elsewhere.
    let moves (v r id : String) : Prop :=
      v = vessel ∧ r = sender ∧ ∃ p ∈ s.owned vessel sender, p.id = id ∧ p.state.terminal = false
    have hmoves : ∀ {v r : String} {p : Promise}, p ∈ s.owned v r → moves v r p.id →
        v = vessel ∧ r = sender ∧ p ∈ (s.owned vessel sender).filter (!·.state.terminal) := by
      rintro v r p hp ⟨rfl, rfl, p', hp', hid, hterm⟩
      have hpp : p' = p := (hs v r).eq_of_id hp' hp hid
      exact ⟨rfl, rfl, hunsettled p hp (hpp ▸ hterm)⟩
    classical
    refine ⟨fun v r id => if moves v r id then (target, newId id) else (r, id), ?_, ?_⟩
    · intro v r p hp
      by_cases hmove : moves v r p.id
      · obtain ⟨rfl, rfl, hp'⟩ := hmoves hp hmove
        obtain ⟨-, q, hq, hqid, hext⟩ := hnew p hp'
        rw [if_pos hmove]
        refine ⟨q, ?_, hqid, hext, fun hterm => ?_⟩
        · rw [howned, if_pos ⟨rfl, rfl⟩]
          exact hq
        · have hunset := List.of_mem_filter hp'
          rw [hterm] at hunset
          cases hunset
      · rw [if_neg hmove]
        refine ⟨p, ?_, rfl, .refl _, fun _ => ⟨rfl, rfl⟩⟩
        rw [howned]
        split
        case isTrue hvr =>
          obtain ⟨rfl, rfl⟩ := hvr
          exact hstay p hp
        case isFalse =>
          split
          case isTrue hvr =>
            obtain ⟨rfl, rfl⟩ := hvr
            refine List.mem_filter.mpr ⟨hp, ?_⟩
            by_contra hterm
            exact hmove ⟨rfl, rfl, p, hp, rfl, by simpa using hterm⟩
          case isFalse => exact hp
    · intro v r r' p hp p' hp' heq
      by_cases hmove : moves v r p.id <;> by_cases hmove' : moves v r' p'.id
      · rw [if_pos hmove, if_pos hmove'] at heq
        obtain ⟨rfl, rfl, hm⟩ := hmoves hp hmove
        obtain ⟨-, rfl, hm'⟩ := hmoves hp' hmove'
        exact ⟨rfl, hinj p hm p' hm' (Prod.mk.inj heq).2⟩
      · rw [if_pos hmove, if_neg hmove'] at heq
        obtain ⟨rfl, rfl, hm⟩ := hmoves hp hmove
        obtain ⟨rfl, hid⟩ := Prod.mk.inj heq
        exact absurd hid.symm ((hnew p hm).1 p' hp')
      · rw [if_neg hmove, if_pos hmove'] at heq
        obtain ⟨rfl, rfl, hm'⟩ := hmoves hp' hmove'
        obtain ⟨rfl, hid⟩ := Prod.mk.inj heq
        exact absurd hid ((hnew p' hm').1 p hp)
      · rw [if_neg hmove, if_neg hmove'] at heq
        exact Prod.mk.inj heq

end Handoff

/-! ### Whole runs -/

/-- What happens to the promises of a convoy. -/
inductive PromiseStep where
  | operation (vessel role : String) (op : PromiseOperation)
  | handoff (vessel sender target : String)

namespace PromiseStep

def run (names : Spelling) (s : ConvoyStatus) : PromiseStep → ConvoyStatus
  | .operation vessel role op => s.applyPromise names vessel role op
  | .handoff vessel sender target => s.handoff vessel sender target

def Unjudged : PromiseStep → Prop
  | .operation _ _ op => op.Unjudged
  | .handoff _ _ _ => True

end PromiseStep

theorem step_sound_carries (names : Spelling) {step : PromiseStep} (hstep : step.Unjudged)
    (hs : Sound s) : Sound (step.run names s) ∧ Carries s (step.run names s) := by
  cases step with
  | operation vessel role op =>
    have h : Revises vessel role s (s.applyPromise names vessel role op) :=
      ConvoyStatus.applyPromiseAt_revises 2 hstep s
    exact ⟨h.sound hs, h.carries hs⟩
  | handoff vessel sender target => exact handoff_sound_carries hs

theorem foldl_sound_carries (names : Spelling) {steps : List PromiseStep}
    (hsteps : ∀ step ∈ steps, step.Unjudged) (hs : Sound s) :
    Sound (steps.foldl (PromiseStep.run names) s) ∧
      Carries s (steps.foldl (PromiseStep.run names) s) := by
  induction steps generalizing s with
  | nil => exact ⟨hs, .refl s⟩
  | cons step steps ih =>
    obtain ⟨hstep, hcarry⟩ := step_sound_carries names (hsteps step (by simp)) hs
    obtain ⟨hrest, hcarry'⟩ := ih (fun step' h => hsteps step' (by simp [h])) hstep
    exact ⟨hrest, hcarry.trans hcarry'⟩

/-- **What the promise state machine keeps.**  Over every sequence of operations and handoffs that
starts with no promises, ids are distinct within a crew, a promise names its holder, and its state
agrees with its verdicts; and between any two moments of the run no promise and no recorded
submission is lost or altered, and a settled promise stays as and where it is. -/
theorem promiseSteps_sound (names : Spelling) {s : ConvoyStatus} (hs : s.promises = ∅)
    (before after : List PromiseStep) (hbefore : ∀ step ∈ before, step.Unjudged)
    (hafter : ∀ step ∈ after, step.Unjudged) :
    Sound (before.foldl (PromiseStep.run names) s) ∧
      Carries (before.foldl (PromiseStep.run names) s)
        ((before ++ after).foldl (PromiseStep.run names) s) := by
  have hstart : Sound s := by
    intro vessel role
    have hnone : s.owned vessel role = [] := by simp [ConvoyStatus.owned, hs]
    rw [hnone]
    exact .nil vessel role
  have hmid := (foldl_sound_carries names hbefore hstart).1
  rw [List.foldl_append]
  exact ⟨hmid, (foldl_sound_carries names hafter hmid).2⟩

/-- A promise that is declared, submitted, rejected, handed over, submitted again and accepted. -/
def resubmission : List PromiseStep :=
  let submission (reference : String) (at_ : DateTime) : Submission := ⟨reference, ∅, at_, none⟩
  [.operation "ship" "coder" (.declare "fix" .pr .crew),
   .operation "ship" "coder" (.submit "fix" .pr .crew (submission "first" 1)),
   .operation "ship" "coder" (.verdict "fix" "first" 1 ⟨false, "judge", 2, "closed"⟩),
   .handoff "ship" "coder" "reviewer",
   .operation "ship" "reviewer" (.submit "fix" .pr .crew (submission "second" 3)),
   .operation "ship" "reviewer" (.verdict "fix" "second" 3 ⟨true, "judge", 4, "merged"⟩)]

theorem promiseSteps_sound_resubmission :
    Sound ((resubmission.take 3).foldl
        (PromiseStep.run ⟨fun _ => none, fun _ => none, fun _ => none, toString⟩) {}) ∧
      Carries ((resubmission.take 3).foldl
          (PromiseStep.run ⟨fun _ => none, fun _ => none, fun _ => none, toString⟩) {})
        ((resubmission.take 3 ++ resubmission.drop 3).foldl
          (PromiseStep.run ⟨fun _ => none, fun _ => none, fun _ => none, toString⟩) {}) ∧
      ((resubmission.foldl (PromiseStep.run ⟨fun _ => none, fun _ => none, fun _ => none, toString⟩)
        {}).owned "ship" "reviewer").map (fun p => (p.state, p.submissions.length)) =
        [(.kept, 2)] := by
  have hrun := promiseSteps_sound ⟨fun _ => none, fun _ => none, fun _ => none, toString⟩
    (s := {}) rfl (resubmission.take 3) (resubmission.drop 3)
    (by simp [resubmission, PromiseStep.Unjudged, PromiseOperation.Unjudged])
    (by simp [resubmission, PromiseStep.Unjudged, PromiseOperation.Unjudged])
  exact ⟨hrun.1, hrun.2, by decide +kernel⟩

end Flotilla.Status
