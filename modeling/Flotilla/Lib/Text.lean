import Mathlib

/-!
# Texts as lists of characters

Splitting at a separator, joining with one, the bytes of a text, and the order of
texts by their bytes.

* `splitOnce_eq_some` : a text split at its first separator.
* `joined_prefix_iff` : pieces without the separator, joined, begin another joined text on
  a boundary exactly when the pieces begin its pieces.
* `fromUtf8_utf8`, `utf8_of_fromUtf8` : bytes and texts determine each other.
* `prefix_iff_range` : the texts between `p ++ [a]` and `p ++ [b]`, for neighbouring
  `a` and `b`, are those that begin with `p ++ [a]`.
-/

namespace Flotilla.Lib

variable {A : Type}

/-! ### Splitting and joining -/

/-- The text before and after the first separator. -/
def splitOnce [DecidableEq A] (sep : A) : List A → Option (List A × List A)
  | [] => none
  | a :: l => if a = sep then some ([], l) else (splitOnce sep l).map fun p => (a :: p.1, p.2)

variable {sep : A}

theorem splitOnce_append [DecidableEq A] {a : List A} (b : List A) (h : sep ∉ a) :
    splitOnce sep (a ++ sep :: b) = some (a, b) := by
  induction a with
  | nil => simp [splitOnce]
  | cons x a ih =>
    simp only [List.mem_cons, not_or] at h
    simp [splitOnce, Ne.symm h.1, ih h.2]

theorem splitOnce_eq_some [DecidableEq A] {l a b : List A} (h : splitOnce sep l = some (a, b)) :
    l = a ++ sep :: b ∧ sep ∉ a := by
  induction l generalizing a with
  | nil => cases h
  | cons x l ih =>
    rw [splitOnce] at h
    split at h
    · cases h
      simp_all
    · obtain ⟨⟨c, d⟩, hcd, heq⟩ := Option.map_eq_some_iff.mp h
      cases heq
      obtain ⟨hl, hc⟩ := ih hcd
      refine ⟨congrArg (x :: ·) hl, ?_⟩
      simp_all [eq_comm]

/-- Pieces with a separator between them. -/
def joined (sep : A) (pieces : List (List A)) : List A := [sep].intercalate pieces

theorem joined_concat {pieces : List (List A)} (piece : List A) (h : pieces ≠ []) :
    joined sep (pieces ++ [piece]) = joined sep pieces ++ sep :: piece := by
  induction pieces with
  | nil => exact absurd rfl h
  | cons p pieces ih =>
    cases pieces with
    | nil => simp [joined, List.intercalate_cons_cons]
    | cons q pieces =>
      have htail := ih (by simp)
      simp only [joined, List.cons_append, List.intercalate_cons_cons] at htail ⊢
      rw [htail]
      simp

theorem joined_append {p q : List (List A)} (hp : p ≠ []) (hq : q ≠ []) :
    joined sep (p ++ q) = joined sep p ++ sep :: joined sep q := by
  induction q using List.reverseRecOn with
  | nil => exact absurd rfl hq
  | append_singleton q piece ih =>
    cases q with
    | nil => simpa [joined] using joined_concat piece hp
    | cons r q =>
      have hsplit := ih (by simp)
      rw [← List.append_assoc, joined_concat piece (by simp), hsplit, joined_concat piece (by simp)]
      simp

/-- Joined pieces begin another joined text on a boundary exactly when they begin its pieces. -/
theorem joined_prefix_iff [DecidableEq A] {p q : List (List A)} (hp : p ≠ [])
    (hpieces : ∀ piece ∈ p, sep ∉ piece) (hq : ∀ piece ∈ q, sep ∉ piece) (hne : q ≠ []) :
    joined sep p ++ [sep] <+: joined sep q ↔ p <+: q ∧ p ≠ q := by
  constructor
  · rintro ⟨rest, hrest⟩
    have hsplit : q = p ++ rest.splitOn sep := by
      rw [← List.splitOn_intercalate sep hq hne, ← joined, ← hrest, List.append_assoc,
        List.singleton_append, List.splitOn_append_cons_self, joined,
        List.splitOn_intercalate sep hpieces hp]
    refine ⟨⟨_, hsplit.symm⟩, fun heq => List.splitOn_ne_nil sep rest ?_⟩
    rw [heq] at hsplit
    exact List.append_right_eq_self.mp hsplit.symm
  · rintro ⟨⟨rest, rfl⟩, hproper⟩
    have hrest : rest ≠ [] := fun h => hproper (by rw [h, List.append_nil])
    exact ⟨joined sep rest, by rw [joined_append hp hrest]; simp⟩

/-! ### Bytes -/

def utf8Bytes (text : List Char) : List UInt8 := text.flatMap String.utf8EncodeChar

def fromUtf8 (bytes : List UInt8) : Option (List Char) :=
  bytes.toByteArray.utf8Decode?.map Array.toList

theorem utf8Encode_eq (text : List Char) : text.utf8Encode = (utf8Bytes text).toByteArray := rfl

theorem fromUtf8_utf8 (text : List Char) : fromUtf8 (utf8Bytes text) = some text := by
  rw [fromUtf8, ← utf8Encode_eq, List.utf8Decode?_utf8Encode]
  simp

theorem utf8_of_fromUtf8 {bytes : List UInt8} {text : List Char} (h : fromUtf8 bytes = some text) :
    utf8Bytes text = bytes := by
  obtain ⟨chars, hchars, rfl⟩ := Option.map_eq_some_iff.mp h
  have hencoded := ByteArray.utf8Encode_get_utf8Decode? (b := bytes.toByteArray)
    (h := by simp [hchars])
  simp only [hchars, Option.get_some, utf8Encode_eq] at hencoded
  have hlist := congrArg (fun b : ByteArray => b.data.toList) hencoded
  simpa using hlist

theorem utf8Bytes_append (a b : List Char) : utf8Bytes (a ++ b) = utf8Bytes a ++ utf8Bytes b :=
  List.flatMap_append

theorem utf8Bytes_injective : Function.Injective utf8Bytes := by
  intro a b h
  exact Option.some.inj ((fromUtf8_utf8 a).symm.trans (h ▸ fromUtf8_utf8 b))

/-! ### Order -/

/-- Between `p ++ [a]` and `p ++ [b]`, for neighbours `a` and `b`, lie the lists that begin with
`p ++ [a]`. -/
theorem prefix_iff_range [LT A] {a b : A} (hirrefl : ∀ c : A, ¬ c < c)
    (hnext : ∀ c, ¬ c < a ∧ c < b ↔ c = a) (p l : List A) :
    ¬ l < p ++ [a] ∧ l < p ++ [b] ↔ p ++ [a] <+: l := by
  induction p generalizing l with
  | nil =>
    cases l with
    | nil => simp
    | cons x l =>
      simp only [List.nil_append, List.cons_lt_cons_iff, List.cons_prefix_cons, List.nil_prefix,
        and_true, List.not_lt_nil, and_false, or_false]
      exact (hnext x).trans eq_comm
  | cons y p ih =>
    cases l with
    | nil => simp
    | cons x l =>
      simp only [List.cons_append, List.cons_lt_cons_iff, List.cons_prefix_cons, ← ih l]
      constructor
      · rintro ⟨hlow, hhigh | ⟨rfl, hhigh⟩⟩
        · exact absurd (.inl hhigh) hlow
        · exact ⟨rfl, fun h => hlow (.inr ⟨rfl, h⟩), hhigh⟩
      · rintro ⟨rfl, hlow, hhigh⟩
        exact ⟨by simpa [hirrefl] using hlow, .inr ⟨rfl, hhigh⟩⟩

end Flotilla.Lib
