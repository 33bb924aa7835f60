import Flotilla.Lib.Bytes

/-!
# JSON values

A JSON tree and its compact printing, as a serialiser without whitespace writes
it.  A number is kept by its printed form, and an object by its fields in key
order.

`quote_append_inj` : a quoted string ends where its closing quote stands, so what
is printed after it can be told apart.  Everything framed by quoted strings is
therefore read back uniquely (`strings_inj`).
-/

namespace Flotilla.Lib

inductive Json where
  | null
  | bool (b : Bool)
  | number (text : String)
  | string (text : String)
  | array (items : List Json)
  | object (fields : List (String × Json))

namespace Json

def get (key : String) : Json → Option Json
  | .object fields => fields.lookup key
  | _ => none

def asStr : Json → Option String
  | .string text => some text
  | _ => none

def asArray : Json → Option (List Json)
  | .array items => some items
  | _ => none

def asObject : Json → Option (List (String × Json))
  | .object fields => some fields
  | _ => none

def isNull : Json → Bool
  | .null => true
  | _ => false

/-! ### Printing -/

/-- The named escapes; the other control characters are written by their code. -/
def escapeChar (c : Char) : List Char :=
  if c = '"' then ['\\', '"']
  else if c = '\\' then ['\\', '\\']
  else if c.toNat = 8 then ['\\', 'b']
  else if c.toNat = 9 then ['\\', 't']
  else if c.toNat = 10 then ['\\', 'n']
  else if c.toNat = 12 then ['\\', 'f']
  else if c.toNat = 13 then ['\\', 'r']
  else if c.toNat < 32 then ['\\', 'u', '0', '0', hexDigit (c.toNat / 16), hexDigit (c.toNat % 16)]
  else [c]

def quote (text : String) : List Char :=
  '"' :: (text.toList.flatMap escapeChar ++ ['"'])

mutual

def chars : Json → List Char
  | .null => ['n', 'u', 'l', 'l']
  | .bool true => ['t', 'r', 'u', 'e']
  | .bool false => ['f', 'a', 'l', 's', 'e']
  | .number text => text.toList
  | .string text => quote text
  | .array items => '[' :: (charsItems items ++ [']'])
  | .object fields => '\x7b' :: (charsFields fields ++ ['\x7d'])

def charsItems : List Json → List Char
  | [] => []
  | [item] => chars item
  | item :: items => chars item ++ ',' :: charsItems items

def charsFields : List (String × Json) → List Char
  | [] => []
  | [(key, value)] => quote key ++ ':' :: chars value
  | (key, value) :: fields => quote key ++ ':' :: (chars value ++ ',' :: charsFields fields)

end

def print (v : Json) : String := String.ofList v.chars

/-! ### Reading a quoted string back -/

/-- One character off the front of an escaped text. -/
def unescapeChar : List Char → Option (Char × List Char)
  | '\\' :: '"' :: rest => some ('"', rest)
  | '\\' :: '\\' :: rest => some ('\\', rest)
  | '\\' :: 'b' :: rest => some (Char.ofNat 8, rest)
  | '\\' :: 't' :: rest => some (Char.ofNat 9, rest)
  | '\\' :: 'n' :: rest => some (Char.ofNat 10, rest)
  | '\\' :: 'f' :: rest => some (Char.ofNat 12, rest)
  | '\\' :: 'r' :: rest => some (Char.ofNat 13, rest)
  | '\\' :: 'u' :: '0' :: '0' :: a :: b :: rest =>
    some (Char.ofNat (hexValue a * 16 + hexValue b), rest)
  | '"' :: _ => none
  | c :: rest => some (c, rest)
  | [] => none

theorem unescapeChar_escapeChar (c : Char) (rest : List Char) :
    unescapeChar (escapeChar c ++ rest) = some (c, rest) := by
  have hcode : ∀ n, c.toNat = n → Char.ofNat n = c := by
    intro n hn
    rw [← hn, Char.ofNat_toNat]
  unfold escapeChar
  split
  next h => subst h; rfl
  split
  next h => subst h; rfl
  split
  next h => exact congrArg (fun d => some (d, rest)) (hcode 8 h)
  split
  next h => exact congrArg (fun d => some (d, rest)) (hcode 9 h)
  split
  next h => exact congrArg (fun d => some (d, rest)) (hcode 10 h)
  split
  next h => exact congrArg (fun d => some (d, rest)) (hcode 12 h)
  split
  next h => exact congrArg (fun d => some (d, rest)) (hcode 13 h)
  split
  next h =>
    have hhigh := hexValue_hexDigit (c.toNat / 16) (by omega)
    have hlow := hexValue_hexDigit (c.toNat % 16) (by omega)
    simp only [List.cons_append, List.nil_append, unescapeChar, hhigh, hlow]
    rw [hcode _ (by omega)]
  next _ hslash _ _ _ _ _ _ =>
    simp [unescapeChar, hslash]

theorem escapeChar_append_inj {c d : Char} {x y : List Char}
    (h : escapeChar c ++ x = escapeChar d ++ y) : c = d ∧ x = y := by
  have hread := congrArg unescapeChar h
  rw [unescapeChar_escapeChar, unescapeChar_escapeChar] at hread
  exact Prod.mk.inj (Option.some.inj hread)

theorem escapeChar_append_ne_quote (c : Char) (x y : List Char) : escapeChar c ++ x ≠ '"' :: y := by
  intro h
  have hread := congrArg unescapeChar h
  rw [unescapeChar_escapeChar] at hread
  simp [unescapeChar] at hread

theorem escaped_append_inj {s t x y : List Char}
    (h : s.flatMap escapeChar ++ '"' :: x = t.flatMap escapeChar ++ '"' :: y) : s = t ∧ x = y := by
  obtain ⟨hst, hxy⟩ := flatMap_append_inj (g := id) (P := fun _ => True)
    (fun _ _ => escapeChar_append_inj) (fun c z => escapeChar_append_ne_quote c z x)
    (fun c z => escapeChar_append_ne_quote c z y) (by simp) (by simp) h
  exact ⟨by simpa using hst, List.tail_eq_of_cons_eq hxy⟩

/-- **A quoted string ends at its closing quote.** -/
theorem quote_append_inj {s t : String} {x y : List Char}
    (h : quote s ++ x = quote t ++ y) : s = t ∧ x = y := by
  simp only [quote, List.cons_append, List.append_assoc, List.nil_append, List.cons.injEq,
    true_and] at h
  obtain ⟨htext, hrest⟩ := escaped_append_inj h
  exact ⟨String.toList_injective htext, hrest⟩

theorem charsItems_strings_inj {ss ts : List String}
    (hlength : ss.length = ts.length) {x y : List Char}
    (h : charsItems (ss.map .string) ++ ']' :: x = charsItems (ts.map .string) ++ ']' :: y) :
    ss = ts := by
  induction ss generalizing ts with
  | nil => exact (List.length_eq_zero_iff.mp hlength.symm).symm
  | cons s ss ih =>
    cases ts with
    | nil => cases hlength
    | cons t ts =>
      have hrest : ss.length = ts.length := Nat.succ.inj hlength
      cases ss with
      | nil =>
        have hnil : ts = [] := List.length_eq_zero_iff.mp hrest.symm
        subst hnil
        simp only [List.map_cons, List.map_nil, charsItems, chars] at h
        rw [(quote_append_inj h).1]
      | cons s' ss =>
        cases ts with
        | nil => cases hrest
        | cons t' ts =>
          simp only [List.map_cons, charsItems, chars, List.append_assoc, List.cons_append] at h
          obtain ⟨rfl, htail⟩ := quote_append_inj h
          rw [ih hrest (List.tail_eq_of_cons_eq htail)]

/-- **A printed list of strings tells the strings**, once their number is known. -/
theorem strings_inj {ss ts : List String} (hlength : ss.length = ts.length)
    (h : (array (ss.map .string)).print = (array (ts.map .string)).print) : ss = ts := by
  have hchars := String.ofList_injective h
  simp only [chars, List.cons.injEq, true_and] at hchars
  exact charsItems_strings_inj hlength hchars

end Json

end Flotilla.Lib
