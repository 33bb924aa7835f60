import Flotilla.Address.Record

/-!
# Message names

A message is named under its inbox.  A keyed send is named by the digest of its inbox, its sender
and its producer key, and an unkeyed one by a key made of its home and its admission; a dead letter
is named by the digest of the message it is about.  An address is known by its text.

* `Send.Differs` : two sends that are to have names of their own.
* `names_distinct_iff` : they have, unless a keyed send has the key made for an unkeyed one.
-/

namespace Flotilla.Addressing

open Lib

/-- What is hashed for a message. -/
def messageInput (components : List Text) : List UInt8 :=
  components.flatMap fun component => frame (utf8Bytes component)

def messagePrefix : Text := "message-".toList

def deadLetterPrefix : Text := "dead-letter-".toList

/-- The key of the admission a home gives. -/
def admissionKey (home : Text) (admission : Nat) : Text :=
  "admission\x00".toList ++ (home ++ '\x00' :: (toString admission).toList)

section Names

variable (lower : Text → Text) (sha256 : List UInt8 → Text)

def messageRecordName (receiver sender producerKey : Text) : Text :=
  messagePrefix ++ sha256 (messageInput [receiver, sender, producerKey])

def messageAddress (inbox : Address) (id : Text) : Except Error Text :=
  (inbox.child lower .message id).map Address.text

def keyedId (inbox sender : Address) (key : Text) : Text :=
  messageRecordName sha256 inbox.text sender.text key

def keyedName (inbox sender : Address) (key : Text) : Except Error Text :=
  messageAddress lower inbox (keyedId sha256 inbox sender key)

def unkeyedName (inbox sender : Address) (home : Text) (admission : Nat) : Except Error Text :=
  keyedName lower sha256 inbox sender (admissionKey home admission)

def deadLetterName (supervisor : Address) (message : Text) : Except Error Text :=
  let digest := (messageRecordName sha256 message [] "dead-letter".toList).drop messagePrefix.length
  messageAddress lower supervisor (deadLetterPrefix ++ digest)

end Names

inductive Send where
  | keyed (inbox sender : Address) (key : Text)
  | unkeyed (inbox sender : Address) (home : Text) (admission : Nat)
  | deadLetter (supervisor : Address) (message : Text)

namespace Send

def name (lower : Text → Text) (sha256 : List UInt8 → Text) : Send → Except Error Text
  | keyed inbox sender key => keyedName lower sha256 inbox sender key
  | unkeyed inbox sender home admission => unkeyedName lower sha256 inbox sender home admission
  | deadLetter supervisor message => deadLetterName lower sha256 supervisor message

/-- Sends that are to have different names: dead letters of one message are not. -/
def Differs : Send → Send → Prop
  | keyed inbox sender key, keyed inbox' sender' key' =>
    (inbox.text, sender.text, key) ≠ (inbox'.text, sender'.text, key')
  | unkeyed inbox sender home admission, unkeyed inbox' sender' home' admission' =>
    (inbox.text, sender.text, home, admission) ≠ (inbox'.text, sender'.text, home', admission')
  | deadLetter _ message, deadLetter _ message' => message ≠ message'
  | _, _ => True

/-- A keyed send with the key that is made for an unkeyed one. -/
def TakesKeyOf : Send → Send → Prop
  | keyed inbox sender key, unkeyed inbox' sender' home admission =>
    inbox.text = inbox'.text ∧ sender.text = sender'.text ∧ key = admissionKey home admission
  | _, _ => False

/-- The inbox a send's message is named under. -/
def inbox : Send → Address
  | keyed inbox _ _ | unkeyed inbox _ _ _ | deadLetter inbox _ => inbox

/-- The texts whose digest a name holds. -/
def parts : Send → List Text
  | keyed inbox sender key => [inbox.text, sender.text, key]
  | unkeyed inbox sender home admission => [inbox.text, sender.text, admissionKey home admission]
  | deadLetter _ message => [message, [], "dead-letter".toList]

def input (send : Send) : List UInt8 := messageInput send.parts

/-- A length in bytes is a machine word. -/
def Fits (send : Send) : Prop := ∀ part ∈ send.parts, Framable (utf8Bytes part)

def isDeadLetter : Send → Bool
  | deadLetter _ _ => true
  | _ => false

def id (sha256 : List UInt8 → Text) (send : Send) : Text :=
  (if send.isDeadLetter then deadLetterPrefix else messagePrefix) ++ sha256 send.input

/-! ### What a name holds -/

variable {lower : Text → Text} {sha256 : List UInt8 → Text} {s t : Send} {x y : Text}

theorem name_eq : s.name lower sha256 = messageAddress lower s.inbox (s.id sha256) := by
  cases s with
  | keyed | unkeyed => rfl
  | deadLetter supervisor message =>
    rfl

/-- Texts around the last separator. -/
theorem append_cons_inj_right {sep : Char} {u v u' v' : Text} (hv : sep ∉ v) (hv' : sep ∉ v')
    (h : u ++ sep :: v = u' ++ sep :: v') : u = u' ∧ v = v' := by
  rcases Address.append_cons_eq_iff.mp h with h | ⟨w, -, rfl⟩ | ⟨w, -, rfl⟩
  · exact h
  · exact absurd (by simp) hv'
  · exact absurd (by simp) hv

theorem admissionKey_inj {home home' : Text} {n n' : Nat}
    (h : admissionKey home n = admissionKey home' n') : home = home' ∧ n = n' := by
  have hdigits : ∀ n : Nat, '\x00' ∉ (toString n).toList := by
    intro n hmem
    rw [Nat.toString_eq_repr, Nat.toList_repr] at hmem
    exact absurd (Nat.isDigit_of_mem_toDigits (by decide) (by decide) hmem) (by decide)
  obtain ⟨hhome, hn⟩ := append_cons_inj_right (hdigits n) (hdigits n') (List.append_cancel_left h)
  exact ⟨hhome, Nat.repr_injective (String.toList_injective hn)⟩

theorem messageAddress_eq_ok {inbox : Address} {id : Text}
    (h : messageAddress lower inbox id = .ok x) : x = (inbox.pushed .message id).text := by
  cases hchild : inbox.child lower .message id with
  | error => simp [messageAddress, hchild, Except.map] at h
  | ok address =>
    simp only [messageAddress, hchild, Except.map, Except.ok.injEq] at h
    rw [← h, (Address.push_eq_ok (Address.child_eq_ok hchild)).2.2]

/-- An address tells the inbox and the id of the message it names. -/
theorem text_pushed_inj {inbox inbox' : Address} {id id' : Text}
    (h : (inbox.pushed .message id).text = (inbox'.pushed .message id').text) :
    inbox.text = inbox'.text ∧ id = id' := by
  have hslash : ∀ value, '/' ∉ spell (some .message, value) := fun _ => slash_not_mem_spell _
  have hspell : ∀ {v v' : Text}, spell (some .message, v) = spell (some .message, v') → v = v' :=
    fun h => (Prod.mk.inj (spell_injective h)).2
  simp only [Address.pushed] at h
  -- Without a text there is no slash.
  split at h <;> split at h
  case isTrue.isTrue he he' => exact ⟨he.trans he'.symm, hspell h⟩
  case isTrue.isFalse =>
    rw [List.nil_append] at h
    exact absurd (h ▸ by simp) (hslash id)
  case isFalse.isTrue =>
    rw [List.nil_append] at h
    exact absurd (h ▸ by simp) (hslash id')
  case isFalse.isFalse =>
    rw [List.append_assoc, List.append_assoc] at h
    obtain ⟨hinbox, hid⟩ := append_cons_inj_right (hslash _) (hslash _) h
    exact ⟨hinbox, hspell hid⟩

theorem id_inj (hs : s.Fits) (ht : t.Fits)
    (hsha : sha256 s.input = sha256 t.input → s.input = t.input) (h : s.id sha256 = t.id sha256) :
    s.isDeadLetter = t.isDeadLetter ∧ s.parts = t.parts := by
  have hheads : ∀ d d', messagePrefix ++ d ≠ deadLetterPrefix ++ d' :=
    fun _ _ h => absurd (List.cons.inj h).1 (by decide)
  have hsame : s.isDeadLetter = t.isDeadLetter := by
    cases hd : s.isDeadLetter <;> cases hd' : t.isDeadLetter <;> simp only [id, hd, hd'] at h ⊢
    · exact absurd h (hheads _ _)
    · exact absurd h.symm (hheads _ _)
  rw [id, id, hsame] at h
  exact ⟨hsame, flatMap_frame_inj utf8Bytes_injective hs ht (hsha (List.append_cancel_left h))⟩

/-- Messages have one name exactly when they are of one sort, under one inbox, with the same texts
hashed. -/
theorem name_eq_iff (hs : s.Fits) (ht : t.Fits)
    (hsha : sha256 s.input = sha256 t.input → s.input = t.input)
    (hx : s.name lower sha256 = .ok x) (hy : t.name lower sha256 = .ok y) :
    x = y ↔ s.inbox.text = t.inbox.text ∧ s.isDeadLetter = t.isDeadLetter ∧ s.parts = t.parts := by
  rw [name_eq] at hx hy
  rw [messageAddress_eq_ok hx, messageAddress_eq_ok hy]
  constructor
  · intro h
    obtain ⟨hinbox, hid⟩ := text_pushed_inj h
    exact ⟨hinbox, id_inj hs ht hsha hid⟩
  · rintro ⟨hinbox, hsort, hparts⟩
    simp only [Address.pushed, hinbox, id, hsort, input, hparts]

theorem TakesKeyOf.same (h : s.TakesKeyOf t) :
    s.inbox.text = t.inbox.text ∧ s.isDeadLetter = t.isDeadLetter ∧ s.parts = t.parts := by
  cases s with
  | unkeyed | deadLetter => exact h.elim
  | keyed =>
    cases t with
    | keyed | deadLetter => exact h.elim
    | unkeyed =>
      obtain ⟨hinbox, hsender, hkey⟩ := h
      exact ⟨hinbox, rfl, by simp only [parts, hinbox, hsender, hkey]⟩

/-- **Sends that differ have different names**, but for a keyed send with the key that is made for
an unkeyed one. -/
theorem names_distinct_iff (hs : s.Fits) (ht : t.Fits)
    (hsha : sha256 s.input = sha256 t.input → s.input = t.input)
    (hx : s.name lower sha256 = .ok x) (hy : t.name lower sha256 = .ok y) (hdiffers : s.Differs t) :
    x ≠ y ↔ ¬ s.TakesKeyOf t ∧ ¬ t.TakesKeyOf s := by
  rw [Ne, name_eq_iff hs ht hsha hx hy]
  constructor
  · intro hne
    refine ⟨fun h => hne h.same, fun h => hne ?_⟩
    exact ⟨h.same.1.symm, h.same.2.1.symm, h.same.2.2.symm⟩
  · rintro ⟨hst, hts⟩ ⟨-, hsort, hparts⟩
    cases s with
    | keyed inbox sender key =>
      cases t with
      | keyed => exact hdiffers (by simpa [parts] using hparts)
      | unkeyed => exact hst (by simpa [parts, TakesKeyOf] using hparts)
      | deadLetter => cases hsort
    | unkeyed inbox sender home admission =>
      cases t with
      | keyed => exact hts (by simpa [parts, TakesKeyOf] using hparts.symm)
      | unkeyed =>
        simp only [parts, List.cons.injEq, and_true] at hparts
        obtain ⟨hinbox, hsender, hkey⟩ := hparts
        obtain ⟨rfl, rfl⟩ := admissionKey_inj hkey
        exact hdiffers (by rw [hinbox, hsender])
      | deadLetter => cases hsort
    | deadLetter supervisor message =>
      cases t with
      | keyed | unkeyed => cases hsort
      | deadLetter => exact hdiffers (List.cons.inj hparts).1

/-- A role of a project, whose inbox receives messages. -/
def projectRole (project role : Text) : Except Error Address := do
  let project ← Address.root toAsciiLowercase .project project
  project.child toAsciiLowercase .role role

/-- The number of the bytes stands for their digest. -/
def sampleName : Send → Except Error Text :=
  name toAsciiLowercase fun bytes => (toString bytes.length).toList

/-- A keyed send and an unkeyed one. -/
theorem names_keyed_unkeyed : ∃ inbox x y, projectRole ['p'] ['r'] = .ok inbox ∧
    sampleName (.keyed inbox inbox ['k']) = .ok x ∧
    sampleName (.unkeyed inbox inbox ['m'] 1) = .ok y ∧
    (x ≠ y ↔ ¬ (keyed inbox inbox ['k']).TakesKeyOf (.unkeyed inbox inbox ['m'] 1) ∧
      ¬ (unkeyed inbox inbox ['m'] 1).TakesKeyOf (.keyed inbox inbox ['k'])) := by
  refine ⟨_, _, _, rfl, rfl, rfl, @names_distinct_iff toAsciiLowercase _ _ _ _ _ ?_ ?_
    (by decide +kernel) rfl rfl trivial⟩
  · unfold Fits Framable
    decide
  · unfold Fits Framable
    decide

/-- A keyed send takes the name of the next unkeyed one. -/
theorem keyed_send_shares_unkeyed_name : ∃ inbox x, projectRole ['p'] ['r'] = .ok inbox ∧
    (keyed inbox inbox (admissionKey ['m'] 1)).Differs (.unkeyed inbox inbox ['m'] 1) ∧
    sampleName (.keyed inbox inbox (admissionKey ['m'] 1)) = .ok x ∧
    sampleName (.unkeyed inbox inbox ['m'] 1) = .ok x :=
  ⟨_, _, rfl, trivial, rfl, rfl⟩

end Send

end Flotilla.Addressing
