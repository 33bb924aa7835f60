import Flotilla.Lib.Loop
import Flotilla.Lib.Text

/-!
# Segment kinds and the encoding of values

A segment of an address is a kind and a value.  In canonical text only the RFC 3986
unreserved bytes of a value stay bare; every other byte is `%XX` with uppercase hex.

* `decodeCanonical_encode` : the encoding of a value decodes to it.
* `encode_of_decodeCanonical` : what decodes canonically is the encoding of the result.
* `encode_chars` : an encoding holds unreserved characters and `%` only.
-/

namespace Flotilla.Addressing

open Lib

abbrev Text := List Char

/-- The closed set of segment kinds. -/
inductive Kind where
  | host | provider | project | fleet | convoy | vessel | role | artifact | message | session
  | forge | repo | changeRequest | issue | comment | commit | ref | usage | account
  deriving DecidableEq

/-- Why text did not parse or a value was refused. -/
inductive Error where
  | empty
  | malformedSegment (raw : Text)
  | unknownKind (token : Text)
  | shape (kind : Kind) (parent : Option Kind)
  | invalidValue (kind : Kind) (value : Text) (reason : String)
  | invalidEscape (value : Text)
  | nonCanonicalEncoding (value : Text)
  | ofNotAfterArtifact
  | ofNotLast
  | artifactWithoutSubject
  | repositoryNeedsForge
  | unresolvedForge (name : Text)
  | unrecognised (input : Text)
  | missingRevision (input : Text)
  | emptyRevision
  | unknownOperator (operator : Text)
  | invalidVariable (name : Text)
  | nonCanonicalQuoting (spelling : Text)
  | syntaxError (input : Text) (position : Nat) (expected : String)
  deriving DecidableEq

namespace Kind

def all : List Kind :=
  [host, provider, project, fleet, convoy, vessel, role, artifact, message, session, forge, repo,
    changeRequest, issue, comment, commit, ref, usage, account]

/-- The segment token, as printed before `:`. -/
def asStr : Kind → Text
  | host => "host".toList
  | provider => "provider".toList
  | project => "project".toList
  | fleet => "fleet".toList
  | convoy => "convoy".toList
  | vessel => "vessel".toList
  | role => "role".toList
  | artifact => "artifact".toList
  | message => "message".toList
  | session => "session".toList
  | forge => "forge".toList
  | repo => "repo".toList
  | changeRequest => "cr".toList
  | issue => "issue".toList
  | comment => "comment".toList
  | commit => "commit".toList
  | ref => "ref".toList
  | usage => "usage".toList
  | account => "account".toList

/-- Whether a segment of this kind may directly follow `parent`, or start an address. -/
def mayFollow (parent : Option Kind) : Kind → Bool
  | fleet | project | forge | usage | host => parent.isNone
  | convoy => parent = none || parent = some project
  | vessel => parent = some convoy
  | role => parent = some fleet || parent = some project || parent = some convoy
  | artifact | message | session => parent = some role
  | repo => parent = some forge
  | changeRequest | issue | comment | commit | ref => parent = some repo
  | account => parent = none || parent = some usage
  | provider => parent = some host || parent = some account

def fromStr (token : Text) : Except Error Kind :=
  okOr (all.find? (·.asStr = token)) (.unknownKind token)

theorem fromStr_asStr (kind : Kind) : fromStr kind.asStr = .ok kind := by
  cases kind <;> decide +kernel

theorem asStr_of_fromStr {token : Text} {kind : Kind} (h : fromStr token = .ok kind) :
    kind.asStr = token :=
  (of_find? (okOr_eq_ok.mp h)).2

theorem asStr_chars (kind : Kind) : ∀ c ∈ kind.asStr, c.isLower = true := by
  have hall : kind.asStr.all Char.isLower = true := by cases kind <;> decide +kernel
  exact List.all_eq_true.mp hall

theorem asStr_injective : Function.Injective asStr := by
  intro a b h
  exact Except.ok.inj ((fromStr_asStr a).symm.trans (h ▸ fromStr_asStr b))

end Kind

/-! ### Percent-encoding -/

def isUnreserved (byte : UInt8) : Bool :=
  (Char.ofNat byte.toNat).isAlphanum || byte = 45 || byte = 46 || byte = 95 || byte = 126

/-- An uppercase hexadecimal digit. -/
def upperHex (n : Nat) : Char := if n < 10 then Char.ofNat (48 + n) else Char.ofNat (55 + n)

def encodeByte (byte : UInt8) : Text :=
  if isUnreserved byte then [Char.ofNat byte.toNat]
  else ['%', upperHex (byte.toNat / 16), upperHex (byte.toNat % 16)]

/-- The canonical encoding of `value`. -/
def encode (value : Text) : Text := (utf8Bytes value).flatMap encodeByte

def hexValue (uppercaseOnly : Bool) (byte : UInt8) : Option Nat :=
  if 48 ≤ byte ∧ byte ≤ 57 then some (byte.toNat - 48)
  else if 65 ≤ byte ∧ byte ≤ 70 then some (byte.toNat - 55)
  else if 97 ≤ byte ∧ byte ≤ 102 ∧ uppercaseOnly = false then some (byte.toNat - 87)
  else none

def hexPair (high low : UInt8) (uppercaseOnly : Bool) : Option UInt8 := do
  let high ← hexValue uppercaseOnly high
  let low ← hexValue uppercaseOnly low
  pure (UInt8.ofNat (high * 16 + low))

/-- The bytes that `encoded`, given by its bytes, stands for. -/
def decodeBytes (encoded : Text) (canonical : Bool) : List UInt8 → Except Error (List UInt8)
  | [] => .ok []
  | 37 :: high :: low :: rest => do
    let value ← okOr (hexPair high low canonical)
      (if (hexPair high low false).isSome then .nonCanonicalEncoding encoded
        else .invalidEscape encoded)
    refuseIf (canonical = true ∧ isUnreserved value = true) (.nonCanonicalEncoding encoded)
    let out ← decodeBytes encoded canonical rest
    pure (value :: out)
  | byte :: rest => do
    refuseIf (byte = 37) (.invalidEscape encoded)
    refuseIf (canonical = true ∧ isUnreserved byte = false) (.nonCanonicalEncoding encoded)
    let out ← decodeBytes encoded canonical rest
    pure (byte :: out)

def decode (encoded : Text) (canonical : Bool) : Except Error Text := do
  let out ← decodeBytes encoded canonical (utf8Bytes encoded)
  okOr (fromUtf8 out) (.invalidEscape encoded)

/-- Decodes a value that must already be in canonical form. -/
def decodeCanonical (encoded : Text) : Except Error Text := decode encoded true

/-! ### The two are inverse -/

theorem forall_byte {P : UInt8 → Prop} (h : ∀ n < 256, P (UInt8.ofNat n)) (byte : UInt8) :
    P byte := by
  have := h byte.toNat (UInt8.toNat_lt byte)
  rwa [UInt8.ofNat_toNat] at this

/-- The bytes of an encoded byte: itself, or its escape. -/
theorem utf8Bytes_encodeByte (byte : UInt8) :
    (isUnreserved byte = true ∧ byte ≠ 37 ∧ utf8Bytes (encodeByte byte) = [byte]) ∨
      (isUnreserved byte = false ∧ ∃ high low, utf8Bytes (encodeByte byte) = [37, high, low] ∧
        hexPair high low true = some byte) := by
  have hdigits : ∀ n < 16, utf8Bytes [upperHex n] = [UInt8.ofNat (upperHex n).toNat] ∧
      hexValue true (UInt8.ofNat (upperHex n).toNat) = some n := by decide +kernel
  have hbare : ∀ byte, isUnreserved byte = true → byte ≠ 37 ∧
      utf8Bytes [Char.ofNat byte.toNat] = [byte] := forall_byte (by decide +kernel)
  cases hbyte : isUnreserved byte with
  | true =>
    obtain ⟨hne, hbytes⟩ := hbare byte hbyte
    exact .inl ⟨rfl, hne, by rw [encodeByte, hbyte]; exact hbytes⟩
  | false =>
    have hlt := UInt8.toNat_lt byte
    obtain ⟨hhigh, hhigh'⟩ := hdigits (byte.toNat / 16) (by omega)
    obtain ⟨hlow, hlow'⟩ := hdigits (byte.toNat % 16) (by omega)
    have hsplit : ∀ c d, utf8Bytes ['%', c, d] =
        utf8Bytes ['%'] ++ (utf8Bytes [c] ++ utf8Bytes [d]) := fun c d => by
      rw [← utf8Bytes_append, ← utf8Bytes_append]
      rfl
    refine .inr ⟨rfl, UInt8.ofNat (upperHex (byte.toNat / 16)).toNat,
      UInt8.ofNat (upperHex (byte.toNat % 16)).toNat, ?_, ?_⟩
    · rw [encodeByte, hbyte, if_neg Bool.false_ne_true, hsplit, hhigh, hlow]
      rfl
    · simp only [hexPair, hhigh', hlow', Option.bind_eq_bind, Option.bind_some, Option.pure_def]
      rw [Nat.div_add_mod', UInt8.ofNat_toNat]

variable {encoded : Text}

theorem decodeBytes_encodeByte (byte : UInt8) (rest : List UInt8) :
    decodeBytes encoded true (utf8Bytes (encodeByte byte) ++ rest) =
      (decodeBytes encoded true rest).map (byte :: ·) := by
  rcases utf8Bytes_encodeByte byte with ⟨hbare, hne, hbytes⟩ | ⟨hbare, high, low, hbytes, hpair⟩
  · rw [hbytes, List.singleton_append, decodeBytes, refuseIf_bind hne,
      refuseIf_bind (by simp [hbare])]
    · rfl
    · rintro _ _ _ rfl
      exact absurd rfl hne
  · rw [hbytes, List.cons_append, List.cons_append, List.cons_append, decodeBytes,
      bind_ok (okOr_eq_ok.mpr hpair), refuseIf_bind (by simp [hbare])]
    rfl

theorem decodeBytes_encode (bytes : List UInt8) :
    decodeBytes encoded true (utf8Bytes (bytes.flatMap encodeByte)) = .ok bytes := by
  induction bytes with
  | nil => rfl
  | cons byte bytes ih =>
    rw [List.flatMap_cons, utf8Bytes_append, decodeBytes_encodeByte, ih]
    rfl

theorem decodeCanonical_encode (value : Text) : decodeCanonical (encode value) = .ok value :=
  (bind_ok (decodeBytes_encode _)).trans (okOr_eq_ok.mpr (fromUtf8_utf8 value))

theorem hexValue_eq_some {byte : UInt8} {n : Nat} (h : hexValue true byte = some n) :
    n < 16 ∧ utf8Bytes [upperHex n] = [byte] := by
  have hdigit : ∀ byte, (hexValue true byte).all fun n =>
      decide (n < 16 ∧ utf8Bytes [upperHex n] = [byte]) := forall_byte (by decide +kernel)
  simpa [h] using hdigit byte

/-- An escape accepted as canonical is the one the encoding writes. -/
theorem utf8Bytes_of_hexPair {high low value : UInt8} (hpair : hexPair high low true = some value)
    (hvalue : isUnreserved value = false) : utf8Bytes (encodeByte value) = [37, high, low] := by
  obtain ⟨m, hm, hpair⟩ := Option.bind_eq_some_iff.mp hpair
  obtain ⟨n, hn, hpair⟩ := Option.bind_eq_some_iff.mp hpair
  cases hpair
  obtain ⟨hmlt, hmbytes⟩ := hexValue_eq_some hm
  obtain ⟨hnlt, hnbytes⟩ := hexValue_eq_some hn
  have hnat : (UInt8.ofNat (m * 16 + n)).toNat = m * 16 + n := by
    rw [UInt8.toNat_ofNat']
    omega
  have hdiv : (m * 16 + n) / 16 = m := by omega
  have hmod : (m * 16 + n) % 16 = n := by omega
  rw [encodeByte, hvalue, if_neg Bool.false_ne_true, hnat, hdiv, hmod]
  have hsplit : ['%', upperHex m, upperHex n] = ['%'] ++ [upperHex m] ++ [upperHex n] := rfl
  rw [hsplit, utf8Bytes_append, utf8Bytes_append, hmbytes, hnbytes]
  rfl

theorem bytes_of_decodeBytes {bytes out : List UInt8}
    (h : decodeBytes encoded true bytes = .ok out) :
    bytes = utf8Bytes (out.flatMap encodeByte) := by
  fun_induction decodeBytes encoded true bytes generalizing out with
  | case1 =>
    cases h
    rfl
  | case2 high low rest ih =>
    obtain ⟨value, hvalue, h⟩ := bind_eq_ok h
    obtain ⟨hescape, h⟩ := of_refuseIf h
    obtain ⟨tail, htail, h⟩ := bind_eq_ok h
    cases h
    rw [List.flatMap_cons, utf8Bytes_append, ← ih htail,
      utf8Bytes_of_hexPair (okOr_eq_ok.mp hvalue) (by simpa using hescape)]
    rfl
  | case3 byte rest hnot ih =>
    obtain ⟨_, hpercent, h⟩ := bind_eq_ok h
    obtain ⟨hbare, h⟩ := of_refuseIf h
    obtain ⟨tail, htail, h⟩ := bind_eq_ok h
    cases h
    rcases utf8Bytes_encodeByte byte with ⟨-, -, hbytes⟩ | ⟨hreserved, -⟩
    · rw [List.flatMap_cons, utf8Bytes_append, ← ih htail, hbytes]
      rfl
    · exact absurd ⟨rfl, hreserved⟩ hbare

theorem encode_of_decodeCanonical {encoded value : Text}
    (h : decodeCanonical encoded = .ok value) : encode value = encoded := by
  obtain ⟨out, hout, hvalue⟩ := bind_eq_ok h
  refine utf8Bytes_injective ?_
  rw [encode, utf8_of_fromUtf8 (okOr_eq_ok.mp hvalue), ← bytes_of_decodeBytes hout]

/-- An encoding holds unreserved characters and `%` only. -/
theorem encode_chars {value : Text} {c : Char} (h : c ∈ encode value) :
    c.isAlphanum = true ∨ c ∈ ['-', '.', '_', '~', '%'] := by
  have hbyte : ∀ byte, (encodeByte byte).all fun c =>
      c.isAlphanum || decide (c ∈ ['-', '.', '_', '~', '%']) := forall_byte (by decide +kernel)
  obtain ⟨byte, -, hc⟩ := List.mem_flatMap.mp h
  simpa using List.all_eq_true.mp (hbyte byte) c hc

end Flotilla.Addressing
