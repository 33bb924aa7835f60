import Flotilla.Message.Machine

/-!
# The rules of a message

`Rules.step` is the pure specification of a message (`message.qnt`): it takes the
evidence as booleans, names a consumer by a number that is zero for none, and keeps
the envelope in the state.  The machine derives that evidence from the receipt log,
the replies, the bindings and the watermarks.

* `step_follows` : every step of the machine is the specification's step, on the
  evidence that the log's entries and the world give.
* `run_follows` : the same over every run, with what holds along it: the receiver
  never changes, only an outcome settles without one, an expiry waits for the
  deadline and the watermark, and the two ends are final.
-/

namespace Flotilla.Message

open Lib
open Engine

/-! ### The specification -/

namespace Rules

inductive Expectation where
  | nothing
  | reply
  | outcome
  deriving DecidableEq, Repr

structure Envelope where
  expectation : Expectation
  hasDeadline : Bool
  deadline : Int
  hasCondition : Bool
  deriving DecidableEq

structure Receiver where
  consumer : Int
  host : String
  deriving DecidableEq

inductive DropReason where
  | undeliverable
  | expired
  | superseded
  | withdrawn
  | consumerUnreachable
  deriving DecidableEq, Repr

structure Drop where
  reason : DropReason
  envelope : Envelope
  receiver : Int
  watermark : Int
  bound : Bool
  receipt : Bool
  deriving DecidableEq

inductive State where
  | pending (envelope : Envelope)
  | awaiting (envelope : Envelope) (receiver : Receiver)
  | settled (envelope : Envelope) (receiver : Int)
  | dropped (drop : Drop)
  deriving DecidableEq

structure Receipt where
  observed : Bool
  receiverMatches : Bool
  transportMatches : Bool
  receiver : Receiver

inductive Settlement where
  | answered (observed : Bool)
  | outcomeObserved (observed : Bool)

structure DropEvidence where
  reason : DropReason
  now : Int
  bound : Bool
  appliedThrough : Int
  met : Bool
  receipt : Bool
  noConsumerPastThreshold : Bool
  failure : Bool
  supersedes : Bool
  authorised : Bool
  conditionFailed : Bool

inductive Event where
  | deliver (receipt : Receipt)
  | settle (settlement : Settlement)
  | dropMessage (evidence : DropEvidence)

inductive Next where
  | moved (state : State)
  | refused (refusal : MessageRefusal)
  deriving DecidableEq

def envelope : State → Envelope
  | .pending e | .awaiting e _ | .settled e _ => e
  | .dropped d => d.envelope

def receiver : State → Int
  | .pending _ => 0
  | .awaiting _ r => r.consumer
  | .settled _ r => r
  | .dropped d => d.receiver

/-- Why a drop is refused, if it is. -/
def dropRefusal (s : State) (o : DropEvidence) : Option MessageRefusal :=
  let env := envelope s
  let bound := o.bound || receiver s ≠ 0
  match o.reason with
  | .expired =>
    if ¬ env.hasDeadline ∨ o.now ≤ env.deadline then some .missingEvidence
    else if bound ∧ o.appliedThrough ≤ env.deadline then some .prefixBeforeDeadline
    else if o.met then some .expectationMet
    else none
  | .undeliverable =>
    match s with
    | .pending _ =>
      if o.receipt then some .receiptConfirmed
      else if o.noConsumerPastThreshold ∨ o.failure then none
      else some .missingEvidence
    | _ => some .wrongState
  | .superseded => if o.supersedes then none else some .missingEvidence
  | .withdrawn =>
    if o.authorised ∨ (env.hasCondition ∧ o.conditionFailed) then none else some .unauthorised
  | .consumerUnreachable => if o.authorised then none else some .unauthorised

/-- The step of a message that has not ended. -/
def openStep (s : State) (event : Event) : Next :=
  let env := envelope s
  match event with
  | .deliver r =>
    match s with
    | .pending _ =>
      if ¬ (r.observed ∧ r.receiverMatches ∧ r.transportMatches) then .refused .incorrectReceipt
      else if env.expectation = .nothing then .moved (.settled env r.receiver.consumer)
      else .moved (.awaiting env r.receiver)
    | _ => .refused .wrongState
  | .settle (.answered observed) =>
    match s with
    | .awaiting _ _ =>
      if env.expectation ≠ .reply then .refused .unsupportedSettlement
      else if observed then .moved (.settled env (receiver s))
      else .refused .missingEvidence
    | _ => .refused .wrongState
  | .settle (.outcomeObserved observed) =>
    if env.expectation ≠ .outcome then .refused .unsupportedSettlement
    else if observed then .moved (.settled env (receiver s))
    else .refused .missingEvidence
  | .dropMessage o =>
    let bound := o.bound || receiver s ≠ 0
    match dropRefusal s o with
    | some refusal => .refused refusal
    | none => .moved (.dropped {
        reason := o.reason
        envelope := env
        receiver := receiver s
        watermark := if o.reason = .expired ∧ bound then o.appliedThrough else 0
        bound := o.reason = .expired ∧ bound
        receipt := if o.reason = .undeliverable then o.receipt else false })

def step (s : State) (event : Event) : Next :=
  match s with
  | .settled _ _ | .dropped _ => .refused .ended
  | .pending _ | .awaiting _ _ => openStep s event

end Rules

/-! ### The machine's states and evidence, as the specification has them -/

def absExpectation : Expectation → Rules.Expectation
  | .nothing => .nothing
  | .reply => .reply
  | .outcome _ => .outcome

def absEnvelope (spec : MessageSpec) : Rules.Envelope where
  expectation := absExpectation spec.expectation
  hasDeadline := spec.deadline.isSome
  deadline := spec.deadline.getD 0
  hasCondition := spec.deliveryCondition.isSome

def absReason : DropReason → Rules.DropReason
  | .undeliverable => .undeliverable
  | .expired => .expired
  | .superseded _ => .superseded
  | .withdrawn _ _ => .withdrawn
  | .consumerUnreachable _ _ => .consumerUnreachable

section Abstraction

-- the number that the specification names a consumer by
variable (number : Receiver → Int)

def absReceiver (receiver : Receiver) : Rules.Receiver :=
  { consumer := number receiver, host := receiver.host }

/-- A receiver's number; zero for none. -/
def numberOf (receiver : Option Receiver) : Int := (receiver.map number).getD 0

/-- A watermark is recorded exactly by an expiry with a consumer bound. -/
def absState (spec : MessageSpec) : MessageState → Rules.State
  | .pending => .pending (absEnvelope spec)
  | .awaiting receiver => .awaiting (absEnvelope spec) (absReceiver number receiver)
  | .settled receiver => .settled (absEnvelope spec) (numberOf number receiver)
  | .dropped reason receiver watermark => .dropped {
      reason := absReason reason
      envelope := absEnvelope spec
      receiver := numberOf number receiver
      watermark := watermark.getD 0
      bound := watermark.isSome
      receipt := false }

/-- The expected outcome was observed. -/
def outcomeEvidence (h : MessageHandle) : Bool :=
  match h.spec.expectation with
  | .outcome condition => outcomeObserved h condition
  | .nothing | .reply => false

/-- At least one consumer is bound to the inbox. -/
def bound (h : MessageHandle) : Bool :=
  match h.world.binding h.spec.inbox with
  | some (.bound _ _) => true
  | some (.unbound _) | none => false

/-- The drop's reference is authorised. -/
def reasonAuthorised (h : MessageHandle) : DropReason → Bool
  | .withdrawn _ authority | .consumerUnreachable _ authority =>
    (h.world.authority authority).getD false
  | .undeliverable | .expired | .superseded _ => false

/-- The newer message names this one. -/
def reasonSupersedes (h : MessageHandle) : DropReason → Bool
  | .superseded by_ => h.world.supersession by_ = some h.name
  | .undeliverable | .expired | .withdrawn _ _ | .consumerUnreachable _ _ => false

/-- The evidence of a drop: `receipts` are those that the log's entries about the message record.
A watermark that was never applied is not past the deadline. -/
def dropEvidence (receipts : List (Receiver × Transport)) (h : MessageHandle)
    (reason : DropReason) : Rules.DropEvidence where
  reason := absReason reason
  now := h.now
  bound := bound h
  appliedThrough := (appliedThrough h).getD (h.spec.deadline.getD 0)
  met := expectationMet h
  receipt := receipts ≠ []
  noConsumerPastThreshold := unboundPastThreshold h
  failure := h.world.deliveryFailure h.name
  supersedes := reasonSupersedes h reason
  authorised := reasonAuthorised h reason
  conditionFailed := conditionLapsed h

/-- The evidence of an edge. -/
def absEdge (receipts : List (Receiver × Transport)) (h : MessageHandle) : MessageEdge → Rules.Event
  | .deliver receiver transport => .deliver {
      observed := receipts ≠ []
      receiverMatches := receipts.any fun receipt => receipt.1 = receiver
      transportMatches := ReceiptLog.lastOf receipts receiver = some transport
      receiver := absReceiver number receiver }
  | .settle .answered => .settle (.answered (h.world.reply h.name))
  | .settle .outcomeObserved => .settle (.outcomeObserved (outcomeEvidence h))
  | .drop reason => .dropMessage (dropEvidence receipts h reason)

/-- An answer of the machine, as the specification gives it. -/
def absAnswer (spec : MessageSpec) : Except MessageRefusal (MessageState × List Empty) → Rules.Next
  | .ok moved => .moved (absState number spec moved.1)
  | .error refusal => .refused refusal

end Abstraction

/-! ### Every step -/

/-- The receipts the machine looks up are those that the entries record. -/
def Reads (receipts : List (Receiver × Transport)) (h : MessageHandle) : Prop :=
  match Message.receipts h with
  | none => receipts = []
  | some byConsumer => receipts ≠ [] ∧
      ∀ receiver, byConsumer[receiver]? = ReceiptLog.lastOf receipts receiver

section Steps

variable {number : Receiver → Int} (hnumber : ∀ r, number r ≠ 0)
variable {receipts : List (Receiver × Transport)} {h : MessageHandle} (hreads : Reads receipts h)

include hreads in
/-- The delivery's gate reads the consumer's last receipt. -/
theorem lookup_eq (receiver : Receiver) :
    ((Message.receipts h).bind fun byConsumer => byConsumer[receiver]?) =
      ReceiptLog.lastOf receipts receiver := by
  rw [Reads] at hreads
  cases hr : Message.receipts h with
  | none =>
    rw [hr] at hreads
    rw [hreads]
    rfl
  | some byConsumer =>
    rw [hr] at hreads
    exact hreads.2 receiver

theorem exists_of_lastOf {receiver : Receiver} {transport : Transport}
    (hlast : ReceiptLog.lastOf receipts receiver = some transport) :
    receipts ≠ [] ∧ ∃ transport, (receiver, transport) ∈ receipts := by
  rw [ReceiptLog.lastOf, Option.map_eq_some_iff] at hlast
  obtain ⟨⟨r, transport'⟩, hreceipt, -⟩ := hlast
  obtain ⟨hmem, hr⟩ := List.mem_filter.mp (List.mem_of_getLast? hreceipt)
  obtain rfl : r = receiver := of_decide_eq_true hr
  exact ⟨List.ne_nil_of_mem hmem, transport', hmem⟩

include hreads in
/-- Any receipt at all is what refuses an undeliverable drop. -/
theorem any_receipts : ((Message.receipts h).any fun byConsumer => ¬ byConsumer.isEmpty) =
    decide (receipts ≠ []) := by
  rw [Reads] at hreads
  cases hr : Message.receipts h with
  | none =>
    rw [hr] at hreads
    simp [hreads]
  | some byConsumer =>
    rw [hr] at hreads
    obtain ⟨hne, hlookup⟩ := hreads
    have hfull : byConsumer ≠ ∅ := by
      obtain ⟨⟨receiver, transport⟩, hmem⟩ := List.exists_mem_of_ne_nil _ hne
      have hlast : (ReceiptLog.lastOf receipts receiver).isSome := by
        rw [ReceiptLog.lastOf, Option.isSome_map, List.getLast?_isSome]
        exact List.ne_nil_of_mem (List.mem_filter.mpr ⟨hmem, decide_eq_true rfl⟩)
      rw [← hlookup, ← Std.ExtTreeMap.mem_iff_isSome_getElem?] at hlast
      rintro rfl
      exact Std.ExtTreeMap.not_mem_empty hlast
    simp [hfull, hne]

include hnumber in
theorem numberOf_ne_zero (receiver : Option Receiver) :
    (decide (numberOf number receiver ≠ 0)) = receiver.isSome := by
  cases receiver with
  | none => simp [numberOf]
  | some r => simp [numberOf, hnumber r]

include hreads in
theorem sim_deliver (hstate : h.state = .pending) (receiver : Receiver) (transport : Transport) :
    absAnswer number h.spec
      (gateDeliver receiver transport h >>= fun _ => .ok (deliver receiver h, [])) =
        Rules.openStep (absState number h.spec h.state)
          (absEdge number receipts h (.deliver receiver transport)) := by
  rw [gateDeliver, lookup_eq hreads, hstate]
  cases hlast : ReceiptLog.lastOf receipts receiver with
  | none => simp [absEdge, hlast, Rules.openStep, absState, absAnswer, bind, Except.bind]
  | some found =>
    obtain ⟨hne, hany⟩ := exists_of_lastOf hlast
    dsimp only
    by_cases hfound : found = transport
    · subst hfound
      rw [refuseIf_bind (not_not.mpr rfl)]
      cases hexpectation : h.spec.expectation <;>
        simp [absAnswer, deliver, hexpectation, absState, absEnvelope, absExpectation, numberOf,
          absReceiver, absEdge, hlast, hne, hany, Rules.openStep, Rules.envelope]
    · rw [refuseIf, if_pos hfound]
      simp [absEdge, hlast, hfound, Rules.openStep, absState, absAnswer, bind, Except.bind]

/-- Pending or Awaiting. -/
def Open (s : MessageState) : Prop := s = .pending ∨ ∃ receiver, s = .awaiting receiver

@[simp] theorem receiver_absState (number : Receiver → Int) (spec : MessageSpec)
    (s : MessageState) : Rules.receiver (absState number spec s) = numberOf number s.receiver := by
  cases s <;> rfl

@[simp] theorem envelope_absState (number : Receiver → Int) (spec : MessageSpec)
    (s : MessageState) : Rules.envelope (absState number spec s) = absEnvelope spec := by
  cases s <;> rfl

theorem sim_settle (hopen : Open h.state) (by_ : Settlement) :
    absAnswer number h.spec
      (gateSettle by_ h >>= fun _ => .ok (.settled h.state.receiver, [])) =
        Rules.openStep (absState number h.spec h.state)
          (absEdge number receipts h (.settle by_)) := by
  cases by_ with
  | answered =>
    rcases hopen with hstate | ⟨receiver, hstate⟩
    · simp [gateSettle, settlementObserved, hstate, refuseIf, absAnswer, absEdge, Rules.openStep,
        absState, bind, Except.bind]
    · simp only [gateSettle, settlementObserved, hstate, absEdge, Rules.openStep, absState,
        Rules.envelope, absEnvelope]
      cases hexpectation : h.spec.expectation with
      | reply =>
        cases hreply : h.world.reply h.name <;>
          simp [refuseIf, absAnswer, absState, absExpectation, absEnvelope, hexpectation,
            bind, Except.bind, pure, Except.pure, Rules.receiver, MessageState.receiver, numberOf,
            absReceiver]
      | nothing | outcome =>
        simp [refuseIf, absAnswer, absExpectation, bind, Except.bind]
  | outcomeObserved =>
    simp only [gateSettle, settlementObserved, absEdge, Rules.openStep, envelope_absState,
      receiver_absState]
    cases hexpectation : h.spec.expectation with
    | outcome condition =>
      cases hobserved : outcomeObserved h condition <;>
        simp [refuseIf, absAnswer, absState, absExpectation, absEnvelope, hexpectation,
          outcomeEvidence, hobserved, bind, Except.bind]
    | nothing | reply =>
      simp [absAnswer, absExpectation, absEnvelope, hexpectation, bind, Except.bind]

include hnumber in
theorem consumerBound_eq (h : MessageHandle) :
    consumerBound h = (bound h || decide (numberOf number h.state.receiver ≠ 0)) := by
  rw [numberOf_ne_zero hnumber]
  rfl

/-- A refusal, or none. -/
def refusing : Option MessageRefusal → Except MessageRefusal Unit
  | some refusal => .error refusal
  | none => .ok ()

include hnumber in
theorem expired_eq :
    expired h = refusing (Rules.dropRefusal (absState number h.spec h.state)
      (dropEvidence receipts h .expired)) := by
  simp only [expired, Rules.dropRefusal, dropEvidence, absReason, envelope_absState,
    receiver_absState, ← consumerBound_eq hnumber, absEnvelope]
  cases hdeadline : h.spec.deadline with
  | none => rfl
  | some deadline =>
    by_cases hnow : h.now > deadline
    · have hlate : ¬ h.now ≤ deadline := not_le.mpr hnow
      have happlied : ((appliedThrough h).all fun watermark => watermark ≤ deadline) = true ↔
          (appliedThrough h).getD deadline ≤ deadline := by
        cases appliedThrough h <;> simp
      have hsome : (some deadline).filter (fun deadline => decide (h.now > deadline)) =
          some deadline := by simp [hnow]
      rw [hsome, bind_ok (okOr_eq_ok.mpr rfl)]
      simp only [happlied, Option.isSome_some, Option.getD_some, not_true_eq_false, hlate, or_self,
        if_false, refuseIf]
      by_cases hbefore : consumerBound h = true ∧ (appliedThrough h).getD deadline ≤ deadline
      · rw [if_pos hbefore, if_pos hbefore]
        rfl
      · rw [if_neg hbefore, if_neg hbefore]
        rcases Bool.eq_false_or_eq_true (expectationMet h) with hmet | hmet <;>
          simp [hmet, refusing, bind, Except.bind]
    · have hearly : h.now ≤ deadline := not_lt.mp hnow
      have hnone : (some deadline).filter (fun deadline => decide (h.now > deadline)) = none := by
        simp [hearly]
      rw [hnone]
      simp [hearly, refusing, okOr, bind, Except.bind]

include hreads in
theorem undeliverable_eq (hopen : Open h.state) :
    undeliverable h = refusing (Rules.dropRefusal (absState number h.spec h.state)
      (dropEvidence receipts h .undeliverable)) := by
  simp only [undeliverable, any_receipts hreads, Rules.dropRefusal, dropEvidence, absReason]
  rcases hopen with hstate | ⟨receiver, hstate⟩
  · simp only [hstate, absState, refuseIf, ne_eq, not_true_eq_false, if_false, decide_not,
      Bool.not_eq_eq_eq_not, Bool.not_true]
    by_cases hnil : receipts = []
    · rcases Bool.eq_false_or_eq_true (unboundPastThreshold h) with hunbound | hunbound <;>
      rcases Bool.eq_false_or_eq_true (h.world.deliveryFailure h.name) with hfailure | hfailure <;>
        simp [hnil, hunbound, hfailure, refusing, bind, Except.bind, pure, Except.pure]
    · simp [hnil, refusing, bind, Except.bind]
  · simp [hstate, absState, refuseIf, refusing, bind, Except.bind]

include hnumber hreads in
/-- The drop's gate refuses as the specification does. -/
theorem gateDrop_eq (hopen : Open h.state) (reason : DropReason) :
    gateDrop reason h = refusing (Rules.dropRefusal (absState number h.spec h.state)
      (dropEvidence receipts h reason)) := by
  cases reason with
  | expired => exact expired_eq hnumber
  | undeliverable => exact undeliverable_eq hreads hopen
  | superseded by_ =>
    simp only [gateDrop, Rules.dropRefusal, dropEvidence, absReason, reasonSupersedes, refuseIf]
    by_cases hnames : h.world.supersession by_ = some h.name <;> simp [hnames, refusing]
  | withdrawn by_ authority =>
    simp only [gateDrop, authorised, Rules.dropRefusal, dropEvidence, absReason, reasonAuthorised,
      refuseIf, envelope_absState, absEnvelope]
    have hlapsed : conditionLapsed h = true → h.spec.deliveryCondition.isSome = true := by
      rw [conditionLapsed]
      cases h.spec.deliveryCondition <;> simp
    cases hauthority : (h.world.authority authority).getD false with
    | true => simp [refusing]
    | false =>
      cases hcondition : conditionLapsed h with
      | true => simp [hlapsed hcondition, refusing]
      | false => simp [refusing]
  | consumerUnreachable by_ authority =>
    simp only [gateDrop, authorised, Rules.dropRefusal, dropEvidence, absReason, reasonAuthorised,
      refuseIf]
    rcases Bool.eq_false_or_eq_true ((h.world.authority authority).getD false) with
      hauthority | hauthority <;> simp [hauthority, refusing]

/-- **What an accepted expiry read**: the deadline is past and, with a consumer bound or a
receiver, so is the applied watermark. -/
theorem expired_eq_ok (hgate : expired h = .ok ()) :
    ∃ deadline, h.spec.deadline = some deadline ∧ deadline < h.now ∧
      (consumerBound h = true → ∃ watermark, appliedThrough h = some watermark ∧
        deadline < watermark) := by
  obtain ⟨deadline, hdeadline, hgate⟩ := bind_eq_ok hgate
  obtain ⟨hwatermark, -⟩ := of_refuseIf hgate
  obtain ⟨hdeadline, hnow⟩ := Option.filter_eq_some_iff.mp (okOr_eq_ok.mp hdeadline)
  refine ⟨deadline, hdeadline, of_decide_eq_true hnow, fun hbound => ?_⟩
  cases happlied : appliedThrough h with
  | none =>
    rw [happlied] at hwatermark
    exact absurd ⟨hbound, rfl⟩ hwatermark
  | some watermark =>
    refine ⟨watermark, rfl, not_le.mp fun hle => hwatermark ⟨hbound, ?_⟩⟩
    rw [happlied]
    exact decide_eq_true hle

include hreads in
theorem undeliverable_eq_ok (hgate : undeliverable h = .ok ()) : receipts = [] := by
  obtain ⟨-, hgate⟩ := of_refuseIf hgate
  obtain ⟨hnone, -⟩ := of_refuseIf hgate
  rwa [any_receipts hreads, decide_eq_true_eq, not_not] at hnone

include hreads in
/-- The state a drop leaves is the specification's. -/
theorem absState_dropMessage {reason : DropReason} (hgate : gateDrop reason h = .ok ()) :
    absState number h.spec (dropMessage reason h) = .dropped {
      reason := absReason reason
      envelope := absEnvelope h.spec
      receiver := numberOf number h.state.receiver
      watermark := if absReason reason = .expired ∧ consumerBound h = true then
        (dropEvidence receipts h reason).appliedThrough else 0
      bound := absReason reason = .expired ∧ consumerBound h = true
      receipt := if absReason reason = .undeliverable then decide (receipts ≠ []) else false } := by
  cases reason with
  | expired =>
    obtain ⟨deadline, -, -, hwatermark⟩ := expired_eq_ok hgate
    rcases Bool.eq_false_or_eq_true (consumerBound h) with hbound | hbound
    · obtain ⟨watermark, happlied, -⟩ := hwatermark hbound
      simp [dropMessage, absState, absReason, hbound, happlied, dropEvidence]
    · simp [dropMessage, absState, absReason, hbound]
  | undeliverable =>
    have hnone : receipts = [] := undeliverable_eq_ok hreads hgate
    simp [dropMessage, absState, absReason, hnone]
  | superseded | withdrawn | consumerUnreachable => simp [dropMessage, absState, absReason]

include hnumber hreads in
theorem sim_drop (hopen : Open h.state) (reason : DropReason) :
    absAnswer number h.spec (gateDrop reason h >>= fun _ => .ok (dropMessage reason h, [])) =
      Rules.openStep (absState number h.spec h.state)
        (absEdge number receipts h (.drop reason)) := by
  have hgate := gateDrop_eq hnumber hreads hopen reason
  simp only [Rules.openStep, absEdge, envelope_absState, receiver_absState]
  cases hrefusal : Rules.dropRefusal (absState number h.spec h.state)
    (dropEvidence receipts h reason) with
  | some refusal =>
    rw [hrefusal] at hgate
    rw [hgate]
    rfl
  | none =>
    rw [hrefusal] at hgate
    rw [hgate]
    show Rules.Next.moved (absState number h.spec (dropMessage reason h)) = _
    rw [absState_dropMessage hreads hgate, consumerBound_eq hnumber]
    rfl

/-- An open message: the label the edge leaves, its gate and its effect. -/
theorem verdict_open (hopen : Open h.state) (e : MessageEdge) :
    message.verdict h e =
      (refuseIf (StateValue.label h.state ∉ (messageEdge e).fromLabels) .wrongState >>= fun _ =>
        (messageEdge e).gate h >>= fun _ => .ok ((messageEdge e).effect h)) := by
  rcases hopen with hstate | ⟨receiver, hstate⟩
  · rw [Machine.verdict, hstate]
    rfl
  · rw [Machine.verdict, hstate]
    rfl

theorem label_of_open (hopen : Open h.state) :
    StateValue.label h.state ∈ [MessageLabel.pending, MessageLabel.awaiting] := by
  rcases hopen with hstate | ⟨receiver, hstate⟩ <;> simp [hstate, StateValue.label]

theorem step_of_open (hopen : Open h.state) (event : Rules.Event) :
    Rules.step (absState number h.spec h.state) event =
      Rules.openStep (absState number h.spec h.state) event := by
  rcases hopen with hstate | ⟨receiver, hstate⟩
  · rw [hstate]
    rfl
  · rw [hstate]
    rfl

include hnumber hreads in
theorem open_follows (hopen : Open h.state) (e : MessageEdge) :
    absAnswer number h.spec (message.verdict h e) =
      Rules.openStep (absState number h.spec h.state) (absEdge number receipts h e) := by
  rw [verdict_open hopen]
  cases e with
  | deliver receiver transport =>
    rcases hopen with hstate | ⟨r, hstate⟩
    · rw [refuseIf_bind (by rw [hstate]; simp [messageEdge, StateValue.label])]
      exact sim_deliver hreads hstate receiver transport
    · rw [refuseIf, if_pos (by rw [hstate]; simp [messageEdge, StateValue.label]), hstate]
      rfl
  | settle by_ =>
    have hfrom : ¬ StateValue.label h.state ∉ (messageEdge (.settle by_)).fromLabels :=
      not_not.mpr (label_of_open hopen)
    rw [refuseIf_bind hfrom]
    exact sim_settle hopen by_
  | drop reason =>
    have hfrom : ¬ StateValue.label h.state ∉ (messageEdge (.drop reason)).fromLabels :=
      not_not.mpr (label_of_open hopen)
    rw [refuseIf_bind hfrom]
    exact sim_drop hnumber hreads hopen reason

include hnumber hreads in
/-- **Every step of the machine is the specification's step.** -/
theorem verdict_follows (e : MessageEdge) :
    absAnswer number h.spec (message.verdict h e) =
      Rules.step (absState number h.spec h.state) (absEdge number receipts h e) := by
  by_cases hopen : Open h.state
  · rw [step_of_open hopen]
    exact open_follows hnumber hreads hopen e
  · cases hstate : h.state with
    | pending => exact absurd (.inl hstate) hopen
    | awaiting receiver => exact absurd (.inr ⟨receiver, hstate⟩) hopen
    | settled | dropped =>
      rw [Machine.verdict, hstate]
      rfl

end Steps

/-! ### Every run -/

variable {e : MessageEdge} {h : MessageHandle} {moved : MessageState × List Empty}
  {receiver : Receiver}

/-- The receiver, once there, is kept by every accepted edge. -/
theorem receiver_kept (hv : message.verdict h e = .ok moved)
    (hreceiver : h.state.receiver = some receiver) : moved.1.receiver = some receiver := by
  obtain ⟨-, hfrom, -, rfl⟩ := Machine.verdict_eq_ok hv
  cases e with
  | deliver r transport =>
    cases hstate : h.state with
    | pending =>
      rw [hstate] at hreceiver
      cases hreceiver
    | awaiting | settled | dropped =>
      rw [hstate] at hfrom
      cases List.mem_singleton.mp hfrom
  | settle | drop => exact hreceiver

/-- A message that settled without a receiver expected an outcome. -/
def OutcomeOnly (spec : MessageSpec) (s : MessageState) : Prop :=
  s = .settled none → ∃ condition, spec.expectation = .outcome condition

theorem outcomeOnly_step (hv : message.verdict h e = .ok moved) : OutcomeOnly h.spec moved.1 := by
  obtain ⟨-, hfrom, hgate, rfl⟩ := Machine.verdict_eq_ok hv
  intro hsettled
  cases e with
  | deliver r transport =>
    simp only [message, messageEdge, deliver] at hsettled
    cases hexpectation : h.spec.expectation <;> simp [hexpectation] at hsettled
  | settle by_ =>
    have hnone : h.state.receiver = none := MessageState.settled.inj hsettled
    obtain ⟨observed, hobserved, -⟩ := bind_eq_ok hgate
    cases by_ with
    | answered =>
      -- an answer settles only what a receiver awaits
      obtain ⟨hpending, -⟩ := of_refuseIf hobserved
      cases hs : h.state with
      | pending => exact absurd hs hpending
      | awaiting receiver =>
        rw [hs] at hnone
        cases hnone
      | settled | dropped =>
        rw [hs] at hfrom
        simp [message, messageEdge, StateValue.label] at hfrom
    | outcomeObserved =>
      cases hexpectation : h.spec.expectation with
      | outcome condition => exact ⟨condition, rfl⟩
      | nothing | reply =>
        simp only [settlementObserved, hexpectation] at hobserved
        cases hobserved
  | drop reason => cases hsettled

variable {spec : MessageSpec} {start r : Resource MessageSpec MessageState}
  {edges : List (MessageEdge × Timestamp)}

theorem verdict_of_decide {world : MessageWorld} {now : Timestamp}
    (h : message.decide r e world now = .ok moved) :
    message.verdict (r.handle world now) e = .ok moved := by
  rw [message_sound.decide_eq] at h
  exact mapError_eq_ok h

theorem run_receiver (run : TimedRun message start edges r)
    (hreceiver : start.state.receiver = some receiver) : r.state.receiver = some receiver := by
  induction run with
  | nil => exact hreceiver
  | snoc _ world now version h ih => exact receiver_kept (verdict_of_decide h) ih

theorem run_outcomeOnly (hstart : Admitted message spec start)
    (run : TimedRun message start edges r) : OutcomeOnly r.spec r.state := by
  induction run with
  | nil =>
    obtain ⟨name, world, now, version, spec, state, -, hlabel⟩ := hstart
    intro hsettled
    dsimp only at hsettled
    rw [hsettled] at hlabel
    cases hlabel
  | @snoc edges e r moved _ world now version h _ =>
    have hstep := outcomeOnly_step (verdict_of_decide h)
    rw [OutcomeOnly, commit_spec_of_empty]
    exact hstep

/-- **Over every run the machine accepts, refuses and moves as the specification does, on the
evidence of the log's entries and the world; the receiver never changes, only an outcome settles a
message without one, an expiry waits for the deadline and, with a consumer bound or a receiver,
for the watermark, and the two ends are final.** -/
theorem run_follows (hstart : Admitted message spec start) (run : TimedRun message start edges r) :
    (∀ (number : Receiver → Int) (log log' : ReceiptLog) (entries : List Entry) (e : MessageEdge)
      (world : MessageWorld) (now : Timestamp), (∀ receiver, number receiver ≠ 0) →
      log.insert r.name entries = .ok log' → world.receipts r.name = log'.lookup r.name →
        match message.decide r e world now with
        | .ok moved => Rules.step (absState number r.spec r.state)
            (absEdge number (log.receiptsIn r.name entries) (r.handle world now) e) =
              .moved (absState number r.spec moved.1)
        | .error error => ∃ refusal, error = .refused refusal ∧
            Rules.step (absState number r.spec r.state)
              (absEdge number (log.receiptsIn r.name entries) (r.handle world now) e) =
                .refused refusal) ∧
    (∀ receiver later r', TimedRun message r later r' → r.state.receiver = some receiver →
      r'.state.receiver = some receiver) ∧
    (r.state = .settled none → ∃ condition, r.spec.expectation = .outcome condition) ∧
    (∀ world now moved, message.decide r (.drop .expired) world now = .ok moved →
      ∃ deadline, r.spec.deadline = some deadline ∧ deadline < now ∧
        ((∃ consumers hne, world.binding r.spec.inbox = some (.bound consumers hne)) ∨
          r.state.receiver.isSome = true →
          ∃ watermark, world.appliedThrough r.spec.inbox = some watermark ∧
            deadline < watermark)) ∧
    (StateValue.label r.state = MessageLabel.settled ∨
        StateValue.label r.state = MessageLabel.dropped →
      ∀ e world now, message.decide r e world now = .error (.refused .ended)) := by
  refine ⟨?_, fun receiver later r' hrun => run_receiver hrun, run_outcomeOnly hstart run, ?_, ?_⟩
  · intro number log log' entries e world now hnumber hinsert hworld
    have hreads : Reads (log.receiptsIn r.name entries) (r.handle world now) := by
      have hlookup := ReceiptLog.lookup_insert hinsert
      rw [← hworld] at hlookup
      exact hlookup
    have hstep := verdict_follows hnumber hreads e
    rw [message_sound.decide_eq]
    cases hv : message.verdict (r.handle world now) e with
    | ok moved =>
      rw [hv] at hstep
      exact hstep.symm
    | error refusal =>
      rw [hv] at hstep
      exact ⟨refusal, rfl, hstep.symm⟩
  · intro world now moved h
    obtain ⟨-, -, hgate, -⟩ := Machine.verdict_eq_ok (verdict_of_decide h)
    obtain ⟨deadline, hdeadline, hnow, hwatermark⟩ := expired_eq_ok hgate
    refine ⟨deadline, hdeadline, hnow, fun hbound => hwatermark ?_⟩
    rw [consumerBound, Bool.or_eq_true]
    refine hbound.imp ?_ id
    rintro ⟨consumers, hne, hbinding⟩
    rw [show (r.handle world now).world.binding (r.handle world now).spec.inbox = _ from hbinding]
  · intro hended e world now
    rw [message_sound.decide_eq, Machine.verdict]
    cases hs : r.state with
    | pending | awaiting =>
      rw [hs] at hended
      simp [StateValue.label] at hended
    | settled | dropped =>
      rw [show (r.handle world now).state = r.state from rfl, hs]
      rfl

section Fixtures

def session : Receiver := { kind := .agentSession, id := "s1", host := "h1" }

/-- A log that knows agent sessions, whose receive edge names message `m`. -/
def sessionLog : ReceiptLog where
  consumers := Std.ExtTreeMap.ofList
    [("as", { kind := .agentSession, receive := "rv",
              receipt := fun arguments =>
                .ok (if arguments = [1] then some ("m", .turn) else none) })]
    compare
  messages := ∅

def sessionEntries : List Entry :=
  [{ kind := "as", name := "s1", home := "h1", cause := .edge "rv", arguments := some [1] }]

/-- The receipts of `m`. -/
def oneReceipt : BTreeMap Receiver Transport :=
  (∅ : BTreeMap Receiver Transport).insert session .turn

def receiptWorld : MessageWorld where
  receipts name := if name = "m" then some oneReceipt else none
  binding _ := none
  appliedThrough _ := none
  reply _ := false
  condition _ := none
  deliveryFailure _ := false
  supersession _ := none
  authority _ := none
  sent _ := false

def question : MessageSpec where
  inbox := "crew"
  references := []
  inReplyTo := none
  supersedes := none
  expectation := .reply
  deadline := none
  unboundAfter := 0
  deliveryCondition := none

def asked : Resource MessageSpec MessageState :=
  { name := "m", spec := question, state := .pending, since := 0, version := 1 }

theorem insert_sessionEntries :
    sessionLog.insert "m" sessionEntries =
      .ok { sessionLog with messages := sessionLog.messages.insert "m" (1, oneReceipt) } := by
  rfl

theorem deliver_asked :
    message.decide asked (.deliver session .turn) receiptWorld 5 =
      .ok (.awaiting session, []) := by
  refine (message_sound.decide_iff asked _ receiptWorld 5 _).mpr
    ⟨rfl, List.mem_singleton_self _, ?_, rfl⟩
  show gateDeliver session .turn (asked.handle receiptWorld 5) = .ok ()
  rw [gateDeliver]
  simp [receipts, asked, Resource.handle, receiptWorld, oneReceipt, refuseIf]

theorem run_follows_asked :
    Rules.step (.pending (absEnvelope question))
        (absEdge (fun _ => 1) (sessionLog.receiptsIn "m" sessionEntries)
          (asked.handle receiptWorld 5) (.deliver session .turn)) =
      .moved (.awaiting (absEnvelope question) { consumer := 1, host := "h1" }) ∧
    ∃ r, TimedRun message asked [(.deliver session .turn, 5)] r ∧
      ∀ later r', TimedRun message r later r' → r'.state.receiver = some session := by
  have hstart : Admitted message question asked :=
    ⟨"m", receiptWorld, 0, 1, question, MessageState.pending, rfl, rfl⟩
  have hlookup : receiptWorld.receipts "m" = ReceiptLog.lookup
      { sessionLog with messages := sessionLog.messages.insert "m" (1, oneReceipt) } "m" := by
    simp [receiptWorld, ReceiptLog.lookup]
  refine ⟨?_, _, .snoc .nil receiptWorld 5 2 deliver_asked, ?_⟩
  · have hstep := (run_follows hstart .nil).1 (fun _ => 1) sessionLog _ sessionEntries
      (.deliver session .turn) receiptWorld 5 (fun _ => by decide) insert_sessionEntries hlookup
    exact hstep
  · intro later r' hlater
    exact (run_follows hstart (.snoc .nil receiptWorld 5 2 deliver_asked)).2.1 session later r'
      hlater rfl

end Fixtures

end Flotilla.Message
