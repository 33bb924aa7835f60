import Mathlib

/-!
# Decimal numerals

Version strings are decimal numerals of bounded integers.  `Decimal.parse bound`
reads one the way a checked integer parser does: digits only, an optional
leading plus sign, nothing above `bound`.  `parse_toString` is the round trip:
what is printed reads back.
-/

namespace Flotilla.Lib.Decimal

/-- The digits after an optional plus sign. -/
def unsigned : List Char → List Char
  | '+' :: rest => rest
  | chars => chars

/-- Read a decimal numeral of at most `bound`. -/
def parse (bound : Nat) (text : String) : Option Nat :=
  let digits := unsigned text.toList
  if digits ≠ [] ∧ digits.all Char.isDigit then
    let n := Nat.ofDigitChars 10 digits 0
    if n ≤ bound then some n else none
  else
    none

def scanError (bound acc : Nat) : List Char → String
  | [] => "invalid digit found in string"
  | c :: rest =>
    let n := acc * 10 + (c.toNat - '0'.toNat)
    if ¬ c.isDigit then "invalid digit found in string"
    else if bound < n then "number too large to fit in target type"
    else scanError bound n rest

/-- Why a text that `parse` refuses is not a numeral. -/
def parseError (bound : Nat) (text : String) : String :=
  if text = "" then "cannot parse integer from empty string"
  else scanError bound 0 (unsigned text.toList)

theorem unsigned_of_isDigit {chars : List Char} (h : chars.all Char.isDigit = true) :
    unsigned chars = chars := by
  unfold unsigned
  split
  · simp at h
  · rfl

/-- **A printed number reads back.** -/
theorem parse_toString {bound n : Nat} (h : n ≤ bound) : parse bound (toString n) = some n := by
  have hdigits : (toString n).toList = Nat.toDigits 10 n := Nat.toList_repr
  have hall : (Nat.toDigits 10 n).all Char.isDigit = true := by
    rw [List.all_eq_true]
    exact fun c hc => Nat.isDigit_of_mem_toDigits (by decide) (by decide) hc
  have hvalue : Nat.ofDigitChars 10 (Nat.toDigits 10 n) 0 = n := by simp
  unfold parse
  rw [hdigits, unsigned_of_isDigit hall]
  simp only [hvalue, if_pos (And.intro Nat.toDigits_ne_nil hall), if_pos h]

end Flotilla.Lib.Decimal
