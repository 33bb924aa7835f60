import Flotilla.Attempt

/-!
# Messages

A message is one queued turn for the consumers of an inbox.  It leaves Pending
once, to one receiver, on an observed receipt; it settles on the evidence its
expectation names, and drops only for a recorded reason whose gate reads evidence.

A receipt is a consumer's `Receive` entry about the message.  `ReceiptLog.insert`
reads the entries about a message into the receipts its gates look up, and
`ReceiptLog.lookup_insert` says which these are: for each consumer the transport of
its last receipt.
-/

namespace Flotilla.Message

open Lib
open Engine

/-! ### Consumers and their receipts -/

inductive ConsumerKind where
  | agentSession
  | controller
  | person
  deriving DecidableEq, Repr

def ConsumerKind.rank : ConsumerKind → Nat
  | .agentSession => 0
  | .controller => 1
  | .person => 2

/-- The consumer a receipt came from: its kind, its resource's name and that resource's home. -/
structure Receiver where
  kind : ConsumerKind
  id : String
  host : String
  deriving DecidableEq, Repr

instance : Ord Receiver :=
  ⟨compareLex (compareOn fun r => r.kind.rank) (compareLex (compareOn Receiver.id)
    (compareOn Receiver.host))⟩

instance : Std.TransOrd Receiver :=
  inferInstanceAs (Std.TransCmp (compareLex (compareOn fun r : Receiver => r.kind.rank)
    (compareLex (compareOn Receiver.id) (compareOn Receiver.host))))

theorem ConsumerKind.rank_injective : Function.Injective ConsumerKind.rank := by
  intro a b h
  cases a <;> cases b <;> first | rfl | cases h

instance : Std.LawfulEqOrd Receiver where
  compare_self := Std.ReflCmp.compare_self
  eq_of_compare := by
    intro a b h
    obtain ⟨hkind, h⟩ := compareLex_eq_eq.mp h
    obtain ⟨hid, hhost⟩ := compareLex_eq_eq.mp h
    cases a
    cases b
    cases ConsumerKind.rank_injective (Std.compare_eq_iff_eq.mp hkind)
    cases Std.compare_eq_iff_eq.mp hid
    cases Std.compare_eq_iff_eq.mp hhost
    rfl

inductive Transport where
  | turn
  | notify
  | mute
  deriving DecidableEq, Repr

/-- What wrote a log entry. -/
inductive EntryCause where
  | edge (code : String)
  | other

/-- One log entry; `arguments` are the edge's, still encoded. -/
structure Entry where
  kind : String
  name : String
  home : String
  cause : EntryCause
  arguments : Option (List UInt8)

/-- A consumer kind: the code of its `Receive` edge, and the message and transport that the
edge's arguments name once decoded. -/
structure Consumer where
  kind : ConsumerKind
  receive : String
  receipt : List UInt8 → Except String (Option (String × Transport))

/-- The receipt an entry records, if any; another edge's arguments are never decoded. -/
def Consumer.decode (consumer : Consumer) (entry : Entry) :
    Except String (Option (String × Transport)) :=
  match entry.cause with
  | .other => .ok none
  | .edge code =>
    if code = consumer.receive then
      match entry.arguments with
      | none => .ok none
      | some arguments => consumer.receipt arguments
    else .ok none

structure ReceiptLog where
  consumers : BTreeMap String Consumer
  messages : BTreeMap String (Nat × BTreeMap Receiver Transport)

namespace ReceiptLog

variable (log : ReceiptLog)

/-- The receipt about `message` that an entry records, if any. -/
def receiptOf (message : String) (entry : Entry) : Except String (Option (Receiver × Transport)) :=
  match log.consumers[entry.kind]? with
  | none => .ok none
  | some consumer => do
    match ← consumer.decode entry with
    | some (about, transport) =>
      if about = message then
        return some ({ kind := consumer.kind, id := entry.name, host := entry.home }, transport)
      else return none
    | none => return none

/-- Records the entries about a message as its receipts, a later receipt of a consumer replacing
an earlier one; the version counts every receipt. -/
def insert (message : String) (entries : List Entry) : Except String ReceiptLog := do
  let (receipts, count) ← entries.foldlM
    (fun (found : BTreeMap Receiver Transport × Nat) entry => do
    match ← log.receiptOf message entry with
    | some (receiver, transport) => return (found.1.insert receiver transport, found.2 + 1)
    | none => return found) (∅, 0)
  if count = 0 then return { log with messages := log.messages.erase message }
  else return { log with messages := log.messages.insert message (count, receipts) }

/-- The receipts about a message; none reads as absent. -/
def lookup (message : String) : Option (BTreeMap Receiver Transport) :=
  log.messages[message]?.map Prod.snd

/-! What the entries say -/

/-- The receipts that entries record, in their order. -/
def receiptsIn (message : String) (entries : List Entry) : List (Receiver × Transport) :=
  entries.filterMap fun entry => (log.receiptOf message entry).toOption.join

/-- The transport of a consumer's last receipt. -/
def lastOf (receipts : List (Receiver × Transport)) (receiver : Receiver) : Option Transport :=
  (receipts.filter fun receipt => receipt.1 = receiver).getLast?.map Prod.snd

theorem lastOf_snoc (receipts : List (Receiver × Transport)) (r receiver : Receiver)
    (transport : Transport) :
    lastOf (receipts ++ [(r, transport)]) receiver =
      if r = receiver then some transport else lastOf receipts receiver := by
  rw [lastOf, lastOf, List.filter_append]
  by_cases hr : r = receiver <;> simp [hr]

variable {log}

/-- The loop of `insert` over entries that all decode. -/
theorem foldlM_receiptOf {message : String} {entries : List Entry}
    {found : BTreeMap Receiver Transport × Nat}
    (h : entries.foldlM (fun (found : BTreeMap Receiver Transport × Nat) entry => do
      match ← log.receiptOf message entry with
      | some (receiver, transport) => return (found.1.insert receiver transport, found.2 + 1)
      | none => return found) (∅, 0) = .ok found) :
    found.2 = (log.receiptsIn message entries).length ∧
      ∀ receiver, found.1[receiver]? = lastOf (log.receiptsIn message entries) receiver := by
  induction entries using List.reverseRecOn generalizing found with
  | nil =>
    cases h
    exact ⟨rfl, fun receiver => by simp [receiptsIn, lastOf]⟩
  | append_singleton entries entry ih =>
    rw [List.foldlM_append] at h
    obtain ⟨before, hbefore, h⟩ := bind_eq_ok h
    obtain ⟨hcount, hlookup⟩ := ih hbefore
    obtain ⟨after, hafter, h⟩ := bind_eq_ok h
    cases h
    obtain ⟨receipt, hreceipt, hafter⟩ := bind_eq_ok hafter
    have hin : log.receiptsIn message (entries ++ [entry]) =
        log.receiptsIn message entries ++ receipt.toList := by
      rw [receiptsIn, List.filterMap_append, List.filterMap_cons, hreceipt]
      cases receipt <;> rfl
    rw [hin]
    cases receipt with
    | none =>
      cases hafter
      simpa using ⟨hcount, hlookup⟩
    | some receipt =>
      cases hafter
      refine ⟨by simp [hcount], fun receiver => ?_⟩
      rw [Option.toList_some, lastOf_snoc, Std.ExtTreeMap.getElem?_insert]
      simp only [Std.compare_eq_iff_eq, hlookup]

/-- **The receipts looked up for a message are its consumers' last ones.** -/
theorem lookup_insert {message : String} {entries : List Entry} {log' : ReceiptLog}
    (h : log.insert message entries = .ok log') :
    match log'.lookup message with
    | none => log.receiptsIn message entries = []
    | some receipts => log.receiptsIn message entries ≠ [] ∧
        ∀ receiver, receipts[receiver]? = lastOf (log.receiptsIn message entries) receiver := by
  obtain ⟨⟨receipts, count⟩, hfound, h⟩ := bind_eq_ok h
  obtain ⟨hcount, hlookup⟩ := foldlM_receiptOf hfound
  dsimp only at h hcount hlookup
  split_ifs at h with hzero
  · cases h
    rw [hcount, List.length_eq_zero_iff] at hzero
    simpa [lookup] using hzero
  · cases h
    rw [hcount, List.length_eq_zero_iff] at hzero
    simpa [lookup] using ⟨hzero, hlookup⟩

end ReceiptLog

/-! ### The envelope and the states -/

/-- What would settle the message; `nothing` settles on delivery. -/
inductive Expectation where
  | nothing
  | reply
  | outcome (condition : String)
  deriving DecidableEq, Repr

structure MessageReference where
  revision : String
  subject : Bool

/-- Another message, by name and home. -/
structure MessageRef where
  name : String
  home : String

/-- The message as sent, as far as its machine reads it. -/
structure MessageSpec where
  inbox : String
  references : List MessageReference
  inReplyTo : Option MessageRef
  supersedes : Option MessageRef
  expectation : Expectation
  deadline : Option Timestamp
  unboundAfter : Int
  deliveryCondition : Option String

inductive DropReason where
  | undeliverable
  | expired
  | superseded (by_ : String)
  | withdrawn (by_ authority : String)
  | consumerUnreachable (by_ authority : String)
  deriving DecidableEq, Repr

inductive MessageState where
  | pending
  | awaiting (receiver : Receiver)
  | settled (receiver : Option Receiver)
  | dropped (reason : DropReason) (receiver : Option Receiver) (watermark : Option Timestamp)
  deriving DecidableEq

inductive MessageLabel where
  | pending
  | awaiting
  | settled
  | dropped
  deriving DecidableEq, Repr

inductive MessageDatum where
  | receiver (receiver : Receiver)
  | kept (receiver : Option Receiver)
  | reason (reason : DropReason)
  | watermark (watermark : Option Timestamp)
  deriving DecidableEq

instance : StateValue MessageState MessageLabel MessageDatum where
  label
    | .pending => .pending
    | .awaiting _ => .awaiting
    | .settled _ => .settled
    | .dropped _ _ _ => .dropped
  data
    | .pending => []
    | .awaiting receiver => [("receiver", .receiver receiver)]
    | .settled receiver => [("receiver", .kept receiver)]
    | .dropped reason receiver watermark =>
      [("reason", .reason reason), ("receiver", .kept receiver),
        ("watermark", .watermark watermark)]

/-- The one receiver, once delivered. -/
def MessageState.receiver : MessageState → Option Receiver
  | .awaiting receiver => some receiver
  | .settled receiver | .dropped _ receiver _ => receiver
  | .pending => none

inductive Settlement where
  | answered
  | outcomeObserved
  deriving DecidableEq, Repr

inductive MessageEdge where
  | deliver (receiver : Receiver) (transport : Transport)
  | settle (by_ : Settlement)
  | drop (reason : DropReason)

/-! ### What gates read -/

/-- The consumers bound to an inbox: at least one, or nobody since some time. -/
inductive InboxBinding where
  | bound (consumers : BTreeSet Receiver) (nonempty : consumers ≠ ∅)
  | unbound (since : Timestamp)

inductive MessageRefusal where
  | ended
  | wrongState
  | incorrectReceipt
  | unsupportedSettlement
  | missingEvidence
  | prefixBeforeDeadline
  | expectationMet
  | receiptConfirmed
  | unauthorised
  | subjectsConflict
  | emptyRevision
  | unknownMessage
  deriving DecidableEq, Repr

structure MessageWorld where
  receipts : String → Option (BTreeMap Receiver Transport)
  binding : String → Option InboxBinding
  /-- The applied watermark of the bound consumer host's stream. -/
  appliedThrough : String → Option Timestamp
  /-- A reply to the message was observed. -/
  reply : String → Bool
  condition : String → Option Bool
  deliveryFailure : String → Bool
  /-- The older message that a newer one names. -/
  supersession : String → Option String
  authority : String → Option Bool
  sent : String → Bool

abbrev MessageHandle := Handle MessageSpec MessageState MessageWorld

/-- The world's key for a message by identity. -/
def sentKey (message : MessageRef) : String := message.name ++ "@" ++ message.home

variable (h : MessageHandle)

def receipts : Option (BTreeMap Receiver Transport) := h.world.receipts h.name

/-! ### Gates and effects -/

def gateDeliver (receiver : Receiver) (transport : Transport) (h : MessageHandle) :
    Except MessageRefusal Unit :=
  match (receipts h).bind fun byConsumer => byConsumer[receiver]? with
  | some found => refuseIf (found ≠ transport) .incorrectReceipt
  | none => .error .incorrectReceipt

/-- A message expecting nothing settles on delivery; any other awaits its evidence. -/
def deliver (receiver : Receiver) (h : MessageHandle) : MessageState :=
  match h.spec.expectation with
  | .nothing => .settled (some receiver)
  | .reply | .outcome _ => .awaiting receiver

def outcomeObserved (condition : String) : Bool :=
  (h.world.condition condition).getD false

/-- Whether a settlement's evidence is observed, where the expectation allows it. -/
def settlementObserved (by_ : Settlement) (h : MessageHandle) : Except MessageRefusal Bool :=
  match by_ with
  | .answered => do
    refuseIf (h.state = .pending) .wrongState
    refuseIf (h.spec.expectation ≠ .reply) .unsupportedSettlement
    return h.world.reply h.name
  | .outcomeObserved =>
    match h.spec.expectation with
    | .outcome condition => .ok (outcomeObserved h condition)
    | .nothing | .reply => .error .unsupportedSettlement

def gateSettle (by_ : Settlement) (h : MessageHandle) : Except MessageRefusal Unit := do
  let observed ← settlementObserved by_ h
  refuseIf (¬ observed) .missingEvidence

def authorised (authority : String) : Except MessageRefusal Unit :=
  refuseIf (¬ (h.world.authority authority).getD false) .unauthorised

/-- The delivery condition is observed not to hold; unobserved is not failed. -/
def conditionLapsed : Bool :=
  h.spec.deliveryCondition.any fun condition => h.world.condition condition = some false

/-- At least one consumer is bound to the inbox, or there is a receiver. -/
def consumerBound : Bool :=
  (match h.world.binding h.spec.inbox with
    | some (.bound _ _) => true
    | some (.unbound _) | none => false) || h.state.receiver.isSome

def appliedThrough : Option Timestamp := h.world.appliedThrough h.spec.inbox

/-- The evidence the message expects was observed. -/
def expectationMet : Bool :=
  match h.spec.expectation with
  | .nothing => false
  | .reply => h.world.reply h.name
  | .outcome condition => outcomeObserved h condition

def expired : Except MessageRefusal Unit := do
  let deadline ← okOr (h.spec.deadline.filter fun deadline => h.now > deadline) .missingEvidence
  refuseIf (consumerBound h ∧ (appliedThrough h).all fun watermark => watermark ≤ deadline)
    .prefixBeforeDeadline
  refuseIf (expectationMet h) .expectationMet

/-- Microseconds from `earlier` to `moment`, saturating. -/
def since (moment earlier : Timestamp) : Int := Attempt.saturate (moment - earlier)

def unboundPastThreshold : Bool :=
  match h.world.binding h.spec.inbox with
  | some (.unbound unbound) => since h.now unbound > h.spec.unboundAfter
  | some (.bound _ _) | none => false

def undeliverable : Except MessageRefusal Unit := do
  refuseIf (h.state ≠ .pending) .wrongState
  refuseIf ((receipts h).any fun byConsumer => ¬ byConsumer.isEmpty) .receiptConfirmed
  if unboundPastThreshold h then return ()
  else refuseIf (¬ h.world.deliveryFailure h.name) .missingEvidence

def gateDrop (reason : DropReason) (h : MessageHandle) : Except MessageRefusal Unit :=
  match reason with
  | .expired => expired h
  | .undeliverable => undeliverable h
  | .superseded by_ => refuseIf (h.world.supersession by_ ≠ some h.name) .missingEvidence
  | .withdrawn _ authority =>
    match authorised h authority with
    | .ok () => .ok ()
    | .error refusal => if conditionLapsed h then .ok () else .error refusal
  | .consumerUnreachable _ authority => authorised h authority

/-- A drop keeps the receiver, and the watermark that an expiry with a consumer bound relied on. -/
def dropMessage (reason : DropReason) (h : MessageHandle) : MessageState :=
  let watermark := match reason with
    | .expired => if consumerBound h then appliedThrough h else none
    | _ => none
  .dropped reason h.state.receiver watermark

def messageEdge : MessageEdge →
    DeclaredEdge MessageSpec MessageState MessageLabel MessageWorld Empty MessageRefusal
  | .deliver receiver transport => {
      fromLabels := [.pending], toLabels := [.settled, .awaiting], changes := ["receiver"]
      gate := gateDeliver receiver transport, effect := fun h => (deliver receiver h, []) }
  | .settle by_ => {
      fromLabels := [.pending, .awaiting], toLabels := [.settled], changes := ["receiver"]
      gate := gateSettle by_, effect := fun h => (.settled h.state.receiver, []) }
  | .drop reason => {
      fromLabels := [.pending, .awaiting], toLabels := [.dropped]
      changes := ["reason", "receiver", "watermark"]
      gate := gateDrop reason, effect := fun h => (dropMessage reason h, []) }

/-- At most one subject, every revision non-empty, and the messages it replies to and supersedes
exist. -/
def admits (world : MessageWorld) (spec : MessageSpec) :
    Except MessageRefusal (MessageSpec × MessageState) := do
  refuseIf ((spec.references.filter MessageReference.subject).length > 1) .subjectsConflict
  refuseIf (spec.references.any fun reference => reference.revision.isEmpty) .emptyRevision
  refuseIf ([spec.inReplyTo, spec.supersedes].any fun message =>
    message.any fun message => ¬ world.sent (sentKey message)) .unknownMessage
  return (spec, .pending)

/-- The Message machine. -/
def message : Machine MessageSpec MessageSpec MessageState MessageLabel MessageEdge MessageWorld
    Empty MessageRefusal where
  initial := .pending
  edge := messageEdge
  ends := [(.settled, "the message was settled"), (.dropped, "the message was dropped")]
  ended _ _ := .ended
  wrongState _ _ := .wrongState
  admits world _ spec := admits world spec

theorem message_sound : message.Sound where
  writes h e moved _ write := write.elim
  target h e moved hv := by
    obtain ⟨-, -, -, rfl⟩ := Machine.verdict_eq_ok hv
    cases e with
    | deliver receiver transport =>
      simp only [message, messageEdge, deliver]
      cases h.spec.expectation <;> simp [StateValue.label]
    | settle | drop => exact List.mem_singleton.mpr rfl
  changes h e moved hv := by
    obtain ⟨-, -, -, rfl⟩ := Machine.verdict_eq_ok hv
    intro datum hmem _
    cases e with
    | deliver receiver transport =>
      simp only [message, messageEdge, deliver] at hmem ⊢
      cases hexpectation : h.spec.expectation <;>
        simp_all [StateValue.data]
    | settle =>
      simp only [message, messageEdge, StateValue.data, List.mem_singleton] at hmem ⊢
      rw [hmem]
    | drop =>
      simp only [message, messageEdge, dropMessage, StateValue.data, List.mem_cons,
        List.not_mem_nil, or_false] at hmem ⊢
      rcases hmem with rfl | rfl | rfl <;> simp

end Flotilla.Message
