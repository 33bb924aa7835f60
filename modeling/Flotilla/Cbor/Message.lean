import Flotilla.Lib.Loop
import Flotilla.Resource

/-!
# Message bodies

A message body is one CBOR map with a known `type`.  A writer serializes it and then checks the
bytes as a reader does: the message limit, well-formedness, one scan for what the profile rejects
and limits, and the `type`.

The CBOR library, the serialization of the message type and the standard library's texts are
parameters (`Codec`).  The scan is the crate's own: it recurses into arrays and maps, as deep as
the limit allows.

* `encodeMessage_iff` : the writer succeeds exactly on what the library writes within the limits.
* `decodeMessage_of_fits` : the reader accepts that, and leaves it to the library.
-/

namespace Flotilla.Cbor

open Lib

abbrev Bytes := List UInt8

inductive ErrorKind where
  | truncated | trailingBytes | malformed | invalidUtf8 | indefiniteLength | nan | tag
  | unsupportedSimple | nonTextKey | duplicateKey | depthLimit | elementLimit | messageLimit
  | byteStringLimit | notAMap | missingType | unknownType | badMagic | schema
  deriving DecidableEq

inductive FrameError where
  | profile (kind : ErrorKind) (detail : Option String)
  | io (kind : String)
  deriving DecidableEq

def truncated : FrameError := .profile .truncated none

/-- Bounds a protocol places on one message body; each is inclusive. -/
structure Limits where
  maxMessage : Nat
  maxDepth : Nat
  maxElements : Nat
  maxByteString : Nat

def defaultLimits : Limits := ⟨1024 * 1024, 64, 65536, 1024 * 1024⟩

/-! ### What the library gives -/

/-- The head of a data item. -/
inductive Header where
  | positive | negative
  | float (isNan : Bool)
  | simple (value : Nat)
  | tag (tag : Nat)
  | break_
  | bytes (len : Option Nat)
  | text (len : Option Nat)
  | array (len : Option Nat)
  | map (len : Option Nat)

inductive HeadError where
  | io | malformed

inductive DeError where
  | io | malformed | recursionLimitExceeded
  | other (message : String)

inductive SerError where
  | value (message : String)
  | io (kind : String)

/-- The value of a `type` field. -/
inductive TypeValue where
  | text (kind : String)
  | other

/-- One message type: its `TYPES`, and what `cbor2`, its serialization and the standard library
do. -/
structure Codec (M : Type) where
  types : List String
  toCanonicalVec : M → Except SerError Bytes
  validateSlice : Bytes → Except DeError Unit
  /-- The next head, and how many bytes it takes. -/
  pull : Bytes → Except HeadError (Header × Nat)
  /-- Deserialization under a recursion limit. -/
  deserialize : Nat → Bytes → Except DeError M
  /-- The `type` field alone. -/
  probe : Nat → Bytes → Except DeError (Option TypeValue)
  fromUtf8 : Bytes → Option String
  /-- A text as `{:?}` shows it. -/
  debug : String → String

section Codec

variable {M : Type} (c : Codec M) (limits : Limits)

/-! ### The scan -/

def head (bytes : Bytes) : Except FrameError (Header × Bytes) :=
  match c.pull bytes with
  | .error .io => .error truncated
  | .error .malformed => .error (.profile .malformed none)
  | .ok (header, offset) => .ok (header, bytes.drop offset)

/-- A definite length or count, which the profile requires. -/
def definite (len : Option Nat) : Except FrameError Nat :=
  okOr len (.profile .indefiniteLength none)

/-- `len` bytes, and what follows them. -/
def body (len : Nat) (bytes : Bytes) : Except FrameError (Bytes × Bytes) := do
  refuseIf (bytes.length < len) truncated
  return (bytes.take len, bytes.drop len)

def text (len : Option Nat) (bytes : Bytes) : Except FrameError (String × Bytes) := do
  let (bytes, rest) ← body (← definite len) bytes
  return (← okOr (c.fromUtf8 bytes) (.profile .invalidUtf8 none), rest)

/-- How an item inside a container is scanned; none at the depth limit. -/
abbrev Inner := Option (Bytes → Except FrameError Bytes)

/-- A container's depth and count, both checked before anything inside it is read. -/
def enter (inner : Inner) (len : Option Nat) :
    Except FrameError ((Bytes → Except FrameError Bytes) × Nat) := do
  let len ← definite len
  let inner ← okOr inner (.profile .depthLimit (some (toString limits.maxDepth)))
  refuseIf (len > limits.maxElements)
    (.profile .elementLimit (some s!"{len}, limit {limits.maxElements}"))
  return (inner, len)

def scanItems (item : Bytes → Except FrameError Bytes) : Nat → Bytes → Except FrameError Bytes
  | 0, bytes => .ok bytes
  | n + 1, bytes => do scanItems item n (← item bytes)

/-- Keys compare as decoded text. -/
def scanEntries (item : Bytes → Except FrameError Bytes) :
    Nat → List String → Bytes → Except FrameError Bytes
  | 0, _, bytes => .ok bytes
  | n + 1, seen, bytes => do
    match ← head c bytes with
    | (.text len, rest) =>
      let (key, rest) ← text c len rest
      refuseIf (key ∈ seen) (.profile .duplicateKey (some (c.debug key)))
      scanEntries item n (key :: seen) (← item rest)
    | _ => .error (.profile .nonTextKey none)

def itemWith (inner : Inner) (bytes : Bytes) : Except FrameError Bytes := do
  let (header, rest) ← head c bytes
  match header with
  | .positive | .negative => return rest
  | .float isNan =>
    refuseIf (isNan = true) (.profile .nan none)
    return rest
  | .simple value =>
    -- false, true and null
    refuseIf (value ∉ [20, 21, 22]) (.profile .unsupportedSimple (some (toString value)))
    return rest
  | .tag tag => .error (.profile .tag (some (toString tag)))
  | .break_ => .error (.profile .malformed none)
  | .bytes len =>
    let len ← definite len
    refuseIf (len > limits.maxByteString)
      (.profile .byteStringLimit (some s!"{len}, limit {limits.maxByteString}"))
    return (← body len rest).2
  | .text len => return (← text c len rest).2
  | .array len =>
    let (item, len) ← enter limits inner len
    scanItems item len rest
  | .map len =>
    let (item, len) ← enter limits inner len
    scanEntries c item len [] rest

/-- One data item, in which `depth` more arrays and maps may be nested. -/
def item : (depth : Nat) → Bytes → Except FrameError Bytes
  | 0 => itemWith c limits none
  | depth + 1 => itemWith c limits (some (item depth))

def scan (bytes : Bytes) : Except FrameError Unit := do
  let rest ← item c limits (min limits.maxDepth 255) bytes
  refuseIf (rest ≠ []) (.profile .trailingBytes none)

/-! ### Writing and reading a body -/

def fromDe : DeError → FrameError
  | .io => truncated
  | .malformed => .profile .malformed none
  | .recursionLimitExceeded => .profile .depthLimit (some (toString limits.maxDepth))
  | .other message => .profile .schema (some message)

/-- The bytes hold exactly one data item that a safe reader accepts. -/
def check (bytes : Bytes) : Except FrameError Unit := do
  refuseIf (bytes.length > limits.maxMessage)
    (.profile .messageLimit (some s!"{bytes.length} bytes, limit {limits.maxMessage}"))
  match c.validateSlice bytes with
  | .error error =>
    -- The scan names the problem more precisely when it finds one.
    scan c limits bytes
    .error (fromDe limits error)
  | .ok _ => scan c limits bytes

def deserialize (bytes : Bytes) : Except FrameError M :=
  (c.deserialize (saturatingAdd limits.maxDepth 1) bytes).mapError (fromDe limits)

def checkedMessageType (bytes : Bytes) : Except FrameError String := do
  refuseIf (bytes.head?.all fun (head : UInt8) => head >>> 5 ≠ 5) (.profile .notAMap none)
  match ← (c.probe (saturatingAdd limits.maxDepth 1) bytes).mapError (fromDe limits) with
  | none => .error (.profile .missingType none)
  | some (.text kind) =>
    refuseIf (kind ∉ c.types) (.profile .unknownType (some (c.debug kind)))
    return kind
  | some .other => .error (.profile .unknownType (some "type is not a text string"))

def serError : SerError → FrameError
  | .value message =>
    if message = "duplicate map key" then .profile .duplicateKey none
    else .profile .schema (some message)
  | .io kind => .io kind

/-- A tag is what the library writes for an integer that is out of range. -/
def tagError : FrameError → FrameError
  | .profile .tag _ => .profile .schema (some "integer outside the CBOR range")
  | error => error

def toVec (message : M) : Except FrameError Bytes := do
  let bytes ← (c.toCanonicalVec message).mapError serError
  (check c limits bytes).mapError tagError
  return bytes

def encodeMessage (message : M) : Except FrameError Bytes := do
  let bytes ← toVec c limits message
  let _ ← checkedMessageType c limits bytes
  return bytes

def decodeMessage (bytes : Bytes) : Except FrameError M := do
  check c limits bytes
  let _ ← checkedMessageType c limits bytes
  deserialize c limits bytes

/-! ### A body within the limits -/

/-- What the library writes for a message is within the limits and has a known type. -/
structure Fits (message : M) (bytes : Bytes) : Prop where
  written : c.toCanonicalVec message = .ok bytes
  size : bytes.length ≤ limits.maxMessage
  valid : ∃ u, c.validateSlice bytes = .ok u
  scanned : scan c limits bytes = .ok ()
  typed : ∃ kind, checkedMessageType c limits bytes = .ok kind

variable {c limits} {message : M} {bytes : Bytes}

theorem check_eq_ok : check c limits bytes = .ok () ↔ bytes.length ≤ limits.maxMessage ∧
    (∃ u, c.validateSlice bytes = .ok u) ∧ scan c limits bytes = .ok () := by
  constructor
  · intro h
    obtain ⟨hsize, h⟩ := of_refuseIf h
    refine ⟨Nat.le_of_not_lt hsize, ?_⟩
    split at h
    · obtain ⟨_, -, h⟩ := bind_eq_ok h
      cases h
    next u hvalid => exact ⟨⟨u, hvalid⟩, h⟩
  · rintro ⟨hsize, ⟨u, hvalid⟩, hscan⟩
    rw [check, refuseIf_bind (Nat.not_lt.mpr hsize), hvalid]
    exact hscan

/-- **A message is written exactly when its body is within the limits.** -/
theorem encodeMessage_iff : encodeMessage c limits message = .ok bytes ↔
    Fits c limits message bytes := by
  constructor
  · intro h
    obtain ⟨_, hvec, h⟩ := bind_eq_ok h
    obtain ⟨kind, hkind, h⟩ := bind_eq_ok h
    cases h
    obtain ⟨_, hwritten, hvec⟩ := bind_eq_ok hvec
    obtain ⟨⟨⟩, hcheck, hvec⟩ := bind_eq_ok hvec
    cases hvec
    obtain ⟨hsize, hvalid, hscan⟩ := check_eq_ok.mp (mapError_eq_ok hcheck)
    exact ⟨mapError_eq_ok hwritten, hsize, hvalid, hscan, kind, hkind⟩
  · intro h
    obtain ⟨kind, hkind⟩ := h.typed
    have hvec : toVec c limits message = .ok bytes := by
      rw [toVec, h.written]
      show ((check c limits bytes).mapError tagError >>= fun _ => .ok bytes) = _
      rw [check_eq_ok.mpr ⟨h.size, h.valid, h.scanned⟩]
      rfl
    rw [encodeMessage, bind_ok hvec, bind_ok hkind]
    rfl

/-- The reader accepts what the writer wrote. -/
theorem decodeMessage_of_fits (h : Fits c limits message bytes) :
    decodeMessage c limits bytes = deserialize c limits bytes := by
  obtain ⟨kind, hkind⟩ := h.typed
  rw [decodeMessage, bind_ok (check_eq_ok.mpr ⟨h.size, h.valid, h.scanned⟩), bind_ok hkind]

end Codec

end Flotilla.Cbor
