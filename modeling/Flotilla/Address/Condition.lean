import Flotilla.Address.Canonical
import Flotilla.Lib.Json

/-!
# Conditions, templates and references

The grammar of conditions: `<address> <field-path> <operator> <literal>`, a template with a
variable where the address goes, and `<address>@<revision>`.  Words are bare where possible
and JSON strings otherwise.  The strict cursor is the text that remains; `unquote` is the
JSON reader.

* `printed_reads_back` : what is printed parses to the value it was printed from, but for an
  address whose own text does not parse.
-/

namespace Flotilla.Addressing

open Lib

inductive Operator where
  | equal | notEqual | lessThan | lessThanOrEqual | greaterThan | greaterThanOrEqual
  deriving DecidableEq

namespace Operator

def all : List Operator :=
  [equal, notEqual, lessThan, lessThanOrEqual, greaterThan, greaterThanOrEqual]

def asStr : Operator → Text
  | equal => ['=', '=']
  | notEqual => ['!', '=']
  | lessThan => ['<']
  | lessThanOrEqual => ['<', '=']
  | greaterThan => ['>']
  | greaterThanOrEqual => ['>', '=']

def fromStr (token : Text) : Except Error Operator :=
  okOr (all.find? (·.asStr = token)) (.unknownOperator token)

end Operator

/-- A path into the addressed thing's fields. -/
abbrev FieldPath := List Text

structure Condition where
  address : Address
  path : FieldPath
  operator : Operator
  literal : Text

def isVariableChar (c : Char) : Bool := c.isLower || c.isDigit || c = '_' || c = '-'

/-- A variable is named by a lowercase word. -/
def isVariableName (name : Text) : Bool :=
  name.head?.any Char.isLower && name.tail.all isVariableChar

/-- A template's subject. -/
structure Variable where
  name : Text
  arguments : List Text
  valid : isVariableName name = true

def Variable.new (name : Text) (arguments : List Text) : Except Error Variable :=
  if h : isVariableName name = true then .ok ⟨name, arguments, h⟩
  else .error (.invalidVariable name)

structure Template where
  subject : Variable
  path : FieldPath
  operator : Operator
  literal : Text

/-- The version of a thing a reference pins. -/
structure Revision where
  text : Text
  nonEmpty : text ≠ []

def Revision.new (text : Text) : Except Error Revision :=
  if h : text = [] then .error .emptyRevision else .ok ⟨text, h⟩

structure Reference where
  address : Address
  revision : Revision

/-! ### Printing -/

def isSegmentChar (c : Char) : Bool := c.isAlphanum || c = '_' || c = '-'

def isBareSegment (word : Text) : Bool := word ≠ [] && word.all isSegmentChar

def isBareLiteral (word : Text) : Bool :=
  word ≠ [] && word.all fun c => c.isAlphanum || c ∈ ['_', '-', '.', ':', '/', '+', '@']

/-- A string as `serde_json` prints it. -/
def quote (word : Text) : Text := Json.quote (String.ofList word)

def writeWord (bare : Text → Bool) (word : Text) : Text := if bare word then word else quote word

def FieldPath.print (path : FieldPath) : Text :=
  if path = [] then ['.'] else path.flatMap fun segment => '.' :: writeWord isBareSegment segment

def printArguments (arguments : List Text) : Text :=
  if arguments = [] then []
  else '(' :: (joined ',' (arguments.map (writeWord isBareSegment)) ++ [')'])

def Variable.print (v : Variable) : Text := '$' :: (v.name ++ printArguments v.arguments)

def printComparison (path : FieldPath) (operator : Operator) (literal : Text) : Text :=
  path.print ++ ' ' :: (operator.asStr ++ ' ' :: writeWord isBareLiteral literal)

def Condition.print (c : Condition) : Text :=
  c.address.text ++ ' ' :: printComparison c.path c.operator c.literal

def Template.print (t : Template) : Text :=
  t.subject.print ++ ' ' :: printComparison t.path t.operator t.literal

def Reference.print (r : Reference) : Text := r.address.text ++ '@' :: encode r.revision.text

/-! ### The cursor -/

section Cursor

-- The whole text, for the errors, and the JSON reader.
variable (unquote : Text → Option Text) (text : Text)

/-- The error at the first byte of `rest`. -/
def expected (rest : Text) (what : String) : Error :=
  .syntaxError text ((utf8Bytes text).length - (utf8Bytes rest).length) what

/-- Everything up to the next whitespace, and the rest. -/
def token (rest : Text) : Text × Text := rest.span fun c => !isWhiteSpace c

def separator : Text → Except Error Text
  | ' ' :: rest => .ok rest
  | rest => .error (expected text rest "a space")

/-- The characters through the closing quote, and the rest. -/
def scanQuoted : Bool → Text → Option (Text × Text)
  | _, [] => none
  | true, c :: rest => (scanQuoted false rest).map fun p => (c :: p.1, p.2)
  | false, c :: rest =>
    if c = '"' then some (['"'], rest)
    else (scanQuoted (c = '\\') rest).map fun p => (c :: p.1, p.2)

/-- A JSON string that is not a bare word, as `serde_json` prints it. -/
def quoted (bare : Text → Bool) (rest : Text) : Except Error (Text × Text) := do
  let scanned ← okOr (scanQuoted false rest.tail) (expected text rest "a closing `\"`")
  let value ← okOr (unquote ('"' :: scanned.1)) (expected text rest "a JSON string")
  refuseIf (bare value = true ∨ quote value ≠ '"' :: scanned.1)
    (.nonCanonicalQuoting ('"' :: scanned.1))
  pure (value, scanned.2)

def word (what : String) (rest : Text) : Except Error (Text × Text) :=
  if rest.head? = some '"' then quoted unquote text isBareSegment rest
  else do
    refuseIf (rest.takeWhile isSegmentChar = []) (expected text rest what)
    pure (rest.span isSegmentChar)

/-- One word, and more after each `sep`.  Every turn takes a character, so the length of the
text bounds the turns. -/
def words (what : String) (sep : Char) : Nat → Text → Except Error (List Text × Text)
  | 0, rest => .ok ([], rest)
  | turns + 1, rest => do
    let first ← word unquote text what rest
    if first.2.head? = some sep then do
      let others ← words what sep turns first.2.tail
      pure (first.1 :: others.1, others.2)
    else pure ([first.1], first.2)

def fieldPath : Text → Except Error (FieldPath × Text)
  | '.' :: rest =>
    if rest.head?.all (· ∈ [' ', '\t', '\n', '\r']) then .ok ([], rest)
    else words unquote text "a bare or quoted field name" '.' (rest.length + 1) rest
  | rest => .error (expected text rest "a field path starting with `.`")

def literal (rest : Text) : Except Error Text :=
  if rest.head? = some '"' then do
    let value ← quoted unquote text isBareLiteral rest
    refuseIf (value.2 ≠ []) (expected text value.2 "the end of input")
    pure value.1
  else if isBareLiteral rest then .ok rest
  else .error (expected text rest "a bare or quoted literal")

/-- `<field-path> <operator> <literal>` through the end of input. -/
def comparison (rest : Text) : Except Error (FieldPath × Operator × Text) := do
  let path ← fieldPath unquote text rest
  let rest ← separator text path.2
  let operator ← Operator.fromStr (token rest).1
  let rest ← separator text (token rest).2
  let literal ← literal unquote text rest
  pure (path.1, operator, literal)

def arguments : Text → Except Error (List Text × Text)
  | '(' :: rest => do
    let arguments ← words unquote text "a bare or quoted argument" ',' (rest.length + 1) rest
    refuseIf (arguments.2.head? ≠ some ')') (expected text arguments.2 "`,` or `)`")
    pure (arguments.1, arguments.2.tail)
  | rest => .ok ([], rest)

/-- `$name` or `$name(<argument>,…)`. -/
def readVariable : Text → Except Error (Variable × Text)
  | '$' :: rest => do
    let arguments ← arguments unquote text (rest.span isVariableChar).2
    let subject ← Variable.new (rest.span isVariableChar).1 arguments.1
    pure (subject, arguments.2)
  | rest => .error (expected text rest "a `$` variable")

end Cursor

section Parse

variable (lower : Text → Text) (unquote : Text → Option Text) (text : Text)

def FieldPath.parse : Except Error FieldPath := do
  let path ← fieldPath unquote text text
  refuseIf (path.2 ≠ []) (expected text path.2 "the end of input")
  pure path.1

def Condition.parse : Except Error Condition := do
  let address ← Address.parse lower (token text).1
  let rest ← separator text (token text).2
  let compared ← comparison unquote text rest
  pure { address, path := compared.1, operator := compared.2.1, literal := compared.2.2 }

def Template.parse : Except Error Template := do
  let subject ← readVariable unquote text text
  let rest ← separator text subject.2
  let compared ← comparison unquote text rest
  pure { subject := subject.1, path := compared.1, operator := compared.2.1,
         literal := compared.2.2 }

def Reference.parse : Except Error Reference := do
  let parts ← okOr (splitOnce '@' text) (.missingRevision text)
  let address ← Address.parse lower parts.1
  let decoded ← decodeCanonical parts.2
  let revision ← Revision.new decoded
  pure { address, revision }

end Parse

/-! ### Reading what was printed -/

theorem span_append {p : Char → Bool} {a b : Text} (ha : ∀ c ∈ a, p c = true)
    (hb : b.head?.all (fun c => !p c) = true) : (a ++ b).span p = (a, b) := by
  have hdrop : b.takeWhile p = [] ∧ b.dropWhile p = b := by
    cases b with
    | nil => exact ⟨rfl, rfl⟩
    | cons c b => simp_all
  rw [List.span_eq_takeWhile_dropWhile, List.takeWhile_append_of_pos ha,
    List.dropWhile_append_of_pos ha, hdrop.1, hdrop.2, List.append_nil]

theorem scanQuoted_escapeChar (c : Char) (rest : Text) :
    scanQuoted false (Json.escapeChar c ++ rest) =
      (scanQuoted false rest).map fun p => (Json.escapeChar c ++ p.1, p.2) := by
  have hdigit : ∀ n < 16, hexDigit n ≠ '"' ∧ hexDigit n ≠ '\\' := by decide
  unfold Json.escapeChar
  split_ifs with hquote hslash _ _ _ _ _ hcontrol
  all_goals try (cases hscan : scanQuoted false rest <;> simp [scanQuoted, hscan]; done)
  · have hhigh := hdigit (c.toNat / 16) (by omega)
    have hlow := hdigit (c.toNat % 16) (by omega)
    cases hscan : scanQuoted false rest <;> simp [scanQuoted, hhigh, hlow, hscan]
  · cases hscan : scanQuoted false rest <;> simp [scanQuoted, hquote, hslash, hscan]

theorem scanQuoted_escaped (word rest : Text) :
    scanQuoted false (word.flatMap Json.escapeChar ++ '"' :: rest) =
      some (word.flatMap Json.escapeChar ++ ['"'], rest) := by
  induction word with
  | nil => rfl
  | cons c word ih =>
    rw [List.flatMap_cons, List.append_assoc, scanQuoted_escapeChar, ih]
    simp

section ReadBack

variable {lower : Text → Text} {unquote : Text → Option Text} {text : Text}
  (hunquote : ∀ word, unquote (quote word) = some word)
include hunquote

theorem quoted_quote {bare : Text → Bool} {word : Text} (rest : Text) (h : bare word = false) :
    quoted unquote text bare (quote word ++ rest) = .ok (word, rest) := by
  have hscan : scanQuoted false (quote word ++ rest).tail =
      some (word.flatMap Json.escapeChar ++ ['"'], rest) := by
    rw [← scanQuoted_escaped]
    simp [quote, Json.quote]
  have hspelling : '"' :: (word.flatMap Json.escapeChar ++ ['"']) = quote word := by
    simp [quote, Json.quote]
  refine (bind_ok (okOr_eq_ok.mpr hscan)).trans ?_
  simp only [hspelling]
  exact (bind_ok (okOr_eq_ok.mpr (hunquote word))).trans (refuseIf_bind (by simp [h]))

theorem word_writeWord {what : String} (w : Text) {rest : Text}
    (hrest : rest.head?.all (fun c => !isSegmentChar c) = true) :
    word unquote text what (writeWord isBareSegment w ++ rest) = .ok (w, rest) := by
  cases hbare : isBareSegment w with
  | false =>
    rw [writeWord, hbare, if_neg Bool.false_ne_true, word, if_pos (by simp [quote, Json.quote])]
    exact quoted_quote hunquote rest hbare
  | true =>
    obtain ⟨hne, hchars⟩ : w ≠ [] ∧ ∀ c ∈ w, isSegmentChar c = true := by
      simpa [isBareSegment] using hbare
    have hspan := span_append hchars hrest
    have hquote : (w ++ rest).head? ≠ some '"' := by
      cases w with
      | nil => exact absurd rfl hne
      | cons c w =>
        intro hhead
        cases Option.some.inj hhead
        exact absurd (hchars '"' (by simp)) (by decide)
    rw [writeWord, hbare, if_pos rfl, word, if_neg hquote, hspan]
    rw [List.span_eq_takeWhile_dropWhile] at hspan
    exact refuseIf_bind (by rw [(Prod.mk.inj hspan).1]; exact hne)

theorem words_print {what : String} {sep : Char} (hsep : isSegmentChar sep = false) {rest : Text}
    (hrest : rest.head?.all (fun c => !isSegmentChar c && c != sep) = true) {ws : List Text}
    (hne : ws ≠ []) {turns : Nat} (hturns : ws.length ≤ turns) :
    words unquote text what sep turns (joined sep (ws.map (writeWord isBareSegment)) ++ rest) =
      .ok (ws, rest) := by
  have hend : rest.head?.all (fun c => !isSegmentChar c) = true ∧ rest.head? ≠ some sep := by
    cases rest with
    | nil => simp
    | cons c rest =>
      obtain ⟨hsegment, hne⟩ : isSegmentChar c = false ∧ c ≠ sep := by simpa using hrest
      exact ⟨by simp [hsegment], by simp [hne]⟩
  induction ws generalizing turns with
  | nil => exact absurd rfl hne
  | cons w ws ih =>
    cases turns with
    | zero => simp at hturns
    | succ turns =>
      cases ws with
      | nil =>
        have hword : word unquote text what (writeWord isBareSegment w ++ rest) = .ok (w, rest) :=
          word_writeWord hunquote w hend.1
        simp only [List.map_cons, List.map_nil, joined, List.intercalate_singleton, words]
        exact (bind_ok hword).trans (if_neg hend.2)
      | cons v ws =>
        have hword : word unquote text what (writeWord isBareSegment w ++
            sep :: (joined sep ((v :: ws).map (writeWord isBareSegment)) ++ rest)) = .ok (w, _) :=
          word_writeWord hunquote w (by simp [hsep])
        have htail := @ih (by simp) turns (by simpa using hturns)
        have hjoined : joined sep ((w :: v :: ws).map (writeWord isBareSegment)) ++ rest =
            writeWord isBareSegment w ++
              sep :: (joined sep ((v :: ws).map (writeWord isBareSegment)) ++ rest) := by
          simp [joined, List.intercalate_cons_cons]
        rw [words, hjoined]
        exact (bind_ok hword).trans ((if_pos rfl).trans ((bind_ok htail).trans rfl))

end ReadBack

theorem length_le_joined (sep : Char) (ws : List Text) :
    ws.length ≤ (joined sep ws).length + 1 := by
  induction ws with
  | nil => simp
  | cons w ws ih =>
    cases ws with
    | nil => simp
    | cons v ws =>
      simp only [joined, List.intercalate_cons_cons, List.length_append, List.length_cons] at ih ⊢
      omega

theorem FieldPath.print_eq (path : FieldPath) :
    path.print = '.' :: joined '.' (path.map (writeWord isBareSegment)) := by
  have hflat : ∀ w, ∀ ws, ((w :: ws).flatMap ('.' :: ·)) = '.' :: joined '.' (w :: ws) := by
    intro w ws
    induction ws generalizing w with
    | nil => simp [joined]
    | cons v ws ih =>
      rw [List.flatMap_cons, ih v]
      simp [joined, List.intercalate_cons_cons]
  cases path with
  | nil => rfl
  | cons w ws =>
    simpa [print, List.flatMap_map] using hflat (writeWord isBareSegment w)
      (ws.map (writeWord isBareSegment))

theorem writeWord_eq_cons (w : Text) :
    ∃ c tail, writeWord isBareSegment w = c :: tail ∧ c ∉ [' ', '\t', '\n', '\r'] := by
  cases hbare : isBareSegment w with
  | false => exact ⟨'"', _, by rw [writeWord, hbare]; rfl, by decide⟩
  | true =>
    cases w with
    | nil => cases hbare
    | cons c w =>
      have hchars : isSegmentChar c = true := by simp_all [isBareSegment]
      refine ⟨c, w, by rw [writeWord, hbare]; rfl, fun hmem => ?_⟩
      have hspace : [' ', '\t', '\n', '\r'].all (fun c => !isSegmentChar c) = true := by decide
      simpa [hchars] using List.all_eq_true.mp hspace c hmem

section ReadBack

variable {lower : Text → Text} {unquote : Text → Option Text} {text : Text}
  (hunquote : ∀ word, unquote (quote word) = some word)
include hunquote

theorem fieldPath_print (path : FieldPath) {rest : Text}
    (hrest : rest.head?.all (· = ' ') = true) :
    fieldPath unquote text (path.print ++ rest) = .ok (path, rest) := by
  rw [FieldPath.print_eq, List.cons_append, fieldPath]
  cases path with
  | nil =>
    refine if_pos ?_
    cases rest <;> simp_all [joined]
  | cons w ws =>
    have hhead : (joined '.' ((w :: ws).map (writeWord isBareSegment)) ++ rest).head? =
        (writeWord isBareSegment w).head? := by
      obtain ⟨c, tail, hw, -⟩ := writeWord_eq_cons w
      cases ws <;> simp [joined, List.intercalate_cons_cons, hw]
    obtain ⟨c, tail, hw, hc⟩ := writeWord_eq_cons w
    refine (if_neg (by rw [hhead, hw]; simpa using hc)).trans ?_
    refine words_print hunquote (by decide) ?_ (by simp) ?_
    · cases rest with
      | nil => rfl
      | cons c rest =>
        have hc : c = ' ' := by simpa using hrest
        subst hc
        rfl
    · have hlength := length_le_joined '.' ((w :: ws).map (writeWord isBareSegment))
      rw [List.length_map] at hlength
      rw [List.length_append]
      omega

theorem literal_writeWord (word : Text) :
    literal unquote text (writeWord isBareLiteral word) = .ok word := by
  cases hbare : isBareLiteral word with
  | false =>
    have hquoted : quoted unquote text isBareLiteral (quote word ++ []) = .ok (word, []) :=
      quoted_quote hunquote [] hbare
    rw [List.append_nil] at hquoted
    rw [writeWord, hbare, if_neg Bool.false_ne_true, literal, if_pos (by simp [quote, Json.quote])]
    exact (bind_ok hquoted).trans (refuseIf_bind (by simp))
  | true =>
    have hquote : word.head? ≠ some '"' := by
      intro hhead
      have hchars : ∀ c ∈ word, _ := (by simpa [isBareLiteral] using hbare : _ ∧ _).2
      exact absurd (hchars '"' (List.mem_of_mem_head? hhead)) (by decide)
    rw [writeWord, hbare, if_pos rfl, literal, if_neg hquote, if_pos hbare]

theorem comparison_print (path : FieldPath) (operator : Operator) (word : Text) :
    comparison unquote text (printComparison path operator word) = .ok (path, operator, word) := by
  have htoken : ∀ rest, token (operator.asStr ++ ' ' :: rest) = (operator.asStr, ' ' :: rest) :=
    fun rest => span_append (List.all_eq_true.mp (by cases operator <;> decide +kernel)) rfl
  have hoperator : Operator.fromStr operator.asStr = .ok operator := by cases operator <;> decide
  refine (bind_ok (fieldPath_print hunquote path rfl)).trans ?_
  refine (bind_ok rfl).trans ?_
  simp only [htoken]
  refine (bind_ok hoperator).trans ?_
  refine (bind_ok rfl).trans ?_
  exact (bind_ok (literal_writeWord hunquote word)).trans rfl

theorem arguments_print (args : List Text) (rest : Text) :
    arguments unquote text (printArguments args ++ ' ' :: rest) = .ok (args, ' ' :: rest) := by
  cases args with
  | nil => rfl
  | cons w ws =>
    have hprint : printArguments (w :: ws) ++ ' ' :: rest = '(' ::
        (joined ',' ((w :: ws).map (writeWord isBareSegment)) ++ ')' :: ' ' :: rest) := by
      simp [printArguments]
    have hlength := length_le_joined ',' ((w :: ws).map (writeWord isBareSegment))
    rw [List.length_map] at hlength
    rw [hprint, arguments]
    refine (bind_ok (words_print hunquote (by decide) rfl (by simp) ?_)).trans rfl
    rw [List.length_append]
    omega

theorem readVariable_print (v : Variable) (rest : Text) :
    readVariable unquote text (v.print ++ ' ' :: rest) = .ok (v, ' ' :: rest) := by
  have hname : ∀ c ∈ v.name, isVariableChar c = true := by
    have hvalid := v.valid
    rw [isVariableName] at hvalid
    cases hcases : v.name with
    | nil => exact fun c h => absurd h List.not_mem_nil
    | cons d name =>
      obtain ⟨hd, htail⟩ : d.isLower = true ∧ ∀ c ∈ name, isVariableChar c = true := by
        simpa [hcases] using hvalid
      exact List.forall_mem_cons.mpr ⟨by simp [isVariableChar, hd], htail⟩
  have hspan : (v.name ++ (printArguments v.arguments ++ ' ' :: rest)).span isVariableChar =
      (v.name, printArguments v.arguments ++ ' ' :: rest) := by
    refine span_append hname ?_
    rw [printArguments]
    split <;> rfl
  rw [Variable.print, List.cons_append, List.append_assoc, readVariable, hspan]
  refine (bind_ok (arguments_print hunquote v.arguments rest)).trans ?_
  exact (bind_ok (dif_pos v.valid)).trans rfl

end ReadBack

/-! ### The round trips -/

variable {lower : Text → Text} {a : Address}

/-- No address holds whitespace or `@`. -/
theorem Address.Grown.text_ends (h : a.Grown lower) {c : Char} (hc : c ∈ a.text) :
    isWhiteSpace c = false ∧ c ≠ '@' := by
  have hascii : ∀ n < 128, (Char.ofNat n).isAlphanum = true →
      isWhiteSpace (Char.ofNat n) = false ∧ Char.ofNat n ≠ '@' := by decide +kernel
  rcases h.text_chars c hc with hc | hc
  · have hlt := (isAlphanum_ascii hc).1
    simpa using hascii c.toNat hlt (by simpa using hc)
  · have hrest : ['-', '.', '_', '~', '%', ':', '/'].all fun c =>
        isWhiteSpace c = false ∧ c ≠ '@' := by decide +kernel
    simpa using List.all_eq_true.mp hrest c hc

section RoundTrip

variable {unquote : Text → Option Text} (hunquote : ∀ word, unquote (quote word) = some word)
include hunquote

theorem parse_printed_path (path : FieldPath) : FieldPath.parse unquote path.print = .ok path := by
  have hpath : fieldPath unquote path.print (path.print ++ []) = .ok (path, []) :=
    fieldPath_print hunquote path rfl
  rw [List.append_nil] at hpath
  exact (bind_ok hpath).trans (refuseIf_bind (by simp))

theorem parse_printed_template (t : Template) : Template.parse unquote t.print = .ok t := by
  refine (bind_ok (readVariable_print hunquote t.subject _)).trans ?_
  refine (bind_ok rfl).trans ?_
  exact (bind_ok (comparison_print hunquote t.path t.operator t.literal)).trans rfl

theorem parse_printed_condition (c : Condition) (h : c.address.Grown lower) :
    Condition.parse lower unquote c.print =
      (Address.parse lower c.address.text).map fun address => { c with address } := by
  have htoken : token c.print =
      (c.address.text, ' ' :: printComparison c.path c.operator c.literal) :=
    span_append (fun ch hch => by simp [(h.text_ends hch).1]) rfl
  rw [Condition.parse, htoken]
  cases Address.parse lower c.address.text with
  | error e => rfl
  | ok address =>
    refine (bind_ok rfl).trans ((bind_ok rfl).trans ?_)
    exact (bind_ok (comparison_print hunquote c.path c.operator c.literal)).trans rfl

end RoundTrip

theorem parse_printed_reference (r : Reference) (h : r.address.Grown lower) :
    Reference.parse lower r.print =
      (Address.parse lower r.address.text).map fun address => { r with address } := by
  have hsplit : splitOnce '@' r.print = some (r.address.text, encode r.revision.text) :=
    splitOnce_append _ fun hmem => (h.text_ends hmem).2 rfl
  refine (bind_ok (okOr_eq_ok.mpr hsplit)).trans ?_
  cases Address.parse lower r.address.text with
  | error e => rfl
  | ok address =>
    refine (bind_ok rfl).trans ((bind_ok (decodeCanonical_encode _)).trans ?_)
    exact (bind_ok (dif_neg r.revision.nonEmpty)).trans rfl

/-- A value that holds an address reads back exactly when the address does. -/
theorem map_parse_eq_ok_iff {V : Type} (address : V → Address) {v : V}
    {f : Address → V} (hv : f (address v) = v)
    (h : (address v).Built lower true) :
    (Address.parse lower (address v).text).map f = .ok v ↔ ¬ (address v).IsBareArtifact := by
  obtain ⟨hgrown, hne⟩ := h.grown
  rw [hgrown.parse_text hne]
  cases hfinish : Address.finish (address v) with
  | error e =>
    refine ⟨fun h => (nomatch h), fun hbare => ?_⟩
    rw [Address.finish_eq_ok.mpr ⟨hne, hbare, rfl⟩] at hfinish
    cases hfinish
  | ok b =>
    obtain ⟨-, hbare, rfl⟩ := Address.finish_eq_ok.mp hfinish
    exact ⟨fun _ => hbare, fun _ => congrArg Except.ok hv⟩

/-- Conditions, templates, field paths and references read back as they were printed, but for
an address that is an artifact without its subject; what was read always does. -/
theorem printed_reads_back (lower : Text → Text) (unquote : Text → Option Text)
    (hunquote : ∀ word, unquote (quote word) = some word) :
    (∀ path, FieldPath.parse unquote (FieldPath.print path) = .ok path) ∧
      (∀ t : Template, Template.parse unquote t.print = .ok t) ∧
      (∀ c : Condition, c.address.Built lower true →
        (Condition.parse lower unquote c.print = .ok c ↔ ¬ c.address.IsBareArtifact)) ∧
      (∀ r : Reference, r.address.Built lower true →
        (Reference.parse lower r.print = .ok r ↔ ¬ r.address.IsBareArtifact)) ∧
      (∀ text c, Condition.parse lower unquote text = .ok c →
        Condition.parse lower unquote c.print = .ok c) ∧
      ∀ text r, Reference.parse lower text = .ok r → Reference.parse lower r.print = .ok r := by
  have hcondition : ∀ c, c.address.Built lower true →
      (Condition.parse lower unquote c.print = .ok c ↔ ¬ c.address.IsBareArtifact) := by
    intro c h
    rw [parse_printed_condition hunquote c h.grown.1]
    exact map_parse_eq_ok_iff Condition.address rfl h
  have hreference : ∀ r, r.address.Built lower true →
      (Reference.parse lower r.print = .ok r ↔ ¬ r.address.IsBareArtifact) := by
    intro r h
    rw [parse_printed_reference r h.grown.1]
    exact map_parse_eq_ok_iff Reference.address rfl h
  refine ⟨parse_printed_path hunquote, parse_printed_template hunquote, hcondition, hreference,
    fun text c h => ?_, fun text r h => ?_⟩
  · obtain ⟨address, haddress, h⟩ := bind_eq_ok h
    obtain ⟨rest, -, h⟩ := bind_eq_ok h
    obtain ⟨compared, -, h⟩ := bind_eq_ok h
    cases h
    exact (hcondition _ (.parse rfl haddress)).mpr (Address.grown_of_parse haddress).2.2
  · obtain ⟨parts, -, h⟩ := bind_eq_ok h
    obtain ⟨address, haddress, h⟩ := bind_eq_ok h
    obtain ⟨decoded, -, h⟩ := bind_eq_ok h
    obtain ⟨revision, -, h⟩ := bind_eq_ok h
    cases h
    exact (hreference _ (.parse rfl haddress)).mpr (Address.grown_of_parse haddress).2.2

theorem quote_injective : Function.Injective quote := by
  intro a b h
  have hinj := Json.quote_append_inj (congrArg (· ++ []) h)
  exact String.ofList_injective hinj.1

theorem partialInv_quote (word : Text) : Function.partialInv quote (quote word) = some word :=
  (quote_injective.isPartialInv word (quote word)).mpr rfl

/-- A field path with a quoted segment. -/
theorem printed_reads_back_quoted :
    FieldPath.print [['a'], ['b', ' ']] = ['.', 'a', '.', '"', 'b', ' ', '"'] ∧
      FieldPath.parse (Function.partialInv quote) (FieldPath.print [['a'], ['b', ' ']]) =
        .ok [['a'], ['b', ' ']] :=
  ⟨by decide +kernel,
    (printed_reads_back toAsciiLowercase (Function.partialInv quote) partialInv_quote).1 _⟩

/-- A reference to an artifact without its subject does not read back. -/
theorem bareArtifact_reference_refused : ∃ r : Reference, r.address.Built toAsciiLowercase true ∧
    Reference.parse toAsciiLowercase r.print = .error .artifactWithoutSubject := by
  have hbuilt := Address.Built.child Address.built_role Address.child_artifact
  refine ⟨⟨_, ⟨['1'], by decide⟩⟩, hbuilt, ?_⟩
  have hparse : Address.parse toAsciiLowercase
      (((Address.empty.pushed .project ['x']).pushed .role ['r']).pushed .artifact ['k']).text =
        .error .artifactWithoutSubject := by decide +kernel
  exact (parse_printed_reference _ hbuilt.grown.1).trans (congrArg (Except.map _) hparse)

end Flotilla.Addressing
