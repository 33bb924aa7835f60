import Flotilla.Address.Encoding
import Flotilla.Lib.Decimal

/-!
# Addresses and their canonical text

An address is a list of typed segments, each valid after the one before it; an artifact
address ends with its subject.  The canonical text is kept beside the segments as they grow.
Unicode's lower-casing is the parameter `lower`.

`Grown` are the addresses that segments and subjects were added to one by one.  Reading the
steps of such an address replays its growth, which is what both directions of the round trip
and the range query rest on.

* `canonical_text` : an address and its text determine each other, and the text of every
  address but an artifact without its subject parses.
* `descendants_in_bounds` : the texts between the bounds of an address are the texts of its
  descendants.
-/

namespace Flotilla.Addressing

open Lib

structure Segment where
  kind : Kind
  value : Text
  deriving DecidableEq

/-- The name of a thing by its natural key. -/
structure Address where
  segments : List Segment
  of : Option Text
  text : Text
  deriving DecidableEq

/-- The reserved token of an artifact's subject. -/
def OF : Text := "of".toList

def githubForgeId : Text := "github".toList

/-! ### Values -/

/-- Unicode's White_Space. -/
def isWhiteSpace (c : Char) : Bool :=
  (9 ≤ c.toNat && c.toNat ≤ 13) || c.toNat = 32 || c.toNat = 0x85 || c.toNat = 0xA0 ||
    c.toNat = 0x1680 || (0x2000 ≤ c.toNat && c.toNat ≤ 0x200A) || c.toNat = 0x2028 ||
    c.toNat = 0x2029 || c.toNat = 0x202F || c.toNat = 0x205F || c.toNat = 0x3000

def toAsciiLowercase (text : Text) : Text := text.map Char.toLower

def trim (text : Text) : Text :=
  ((text.dropWhile isWhiteSpace).reverse.dropWhile isWhiteSpace).reverse

/-- A `forge_id` is a lowercase DNS label. -/
def validateForgeId (id : Text) : Except Error Unit :=
  let bytes := utf8Bytes id
  let alphanumeric := fun byte : UInt8 => (Char.ofNat byte.toNat).isAlphanum
  refuseIf (¬ (bytes ≠ [] ∧ bytes.length ≤ 63 ∧ bytes.head?.any alphanumeric ∧
      bytes.getLast?.any alphanumeric ∧
      bytes.all fun byte => (97 ≤ byte && byte ≤ 122) || (48 ≤ byte && byte ≤ 57) || byte = 45))
    (.invalidValue .forge id "a forge id is a lowercase DNS label")

inductive ForgeKind where
  | github | forgejo
  deriving DecidableEq

/-- A resolved forge.  The built-in id takes only the kind of public GitHub. -/
structure Forge where
  id : Text
  kind : ForgeKind
  valid : validateForgeId id = .ok ()
  builtin : id = githubForgeId → kind = .github

/-- GitHub and Forgejo repositories are `owner/repo`. -/
def validateRepository (kind : ForgeKind) (repository : Text) : Except Error Unit :=
  match kind with
  | .github | .forgejo =>
    refuseIf (¬ (splitOnce '/' repository).any fun p => p.1 ≠ [] ∧ p.2 ≠ [] ∧ '/' ∉ p.2)
      (.invalidValue .repo repository "a repository is owner/repo")

variable (lower : Text → Text)

def normaliseUsage (value : Text) : Text := lower (trim value)

/-- Applies this kind's case rule to an `owner/repo` value. -/
def ForgeKind.normaliseRepository (kind : ForgeKind) (repository : Text) : Text :=
  match kind with
  | .github | .forgejo => lower repository

/-- A number with no sign or leading zero. -/
def isCanonicalNumber (value : Text) : Bool :=
  value.all Char.isDigit && (value = ['0'] || value.head? ≠ some '0')

def isLowerHex (c : Char) : Bool := c.isDigit || ('a' ≤ c && c ≤ 'f')

/-- Values are non-empty; numbers, forge ids and commits have stricter forms. -/
def validateValue (kind : Kind) (value : Text) : Except Error Unit := do
  refuseIf (value = []) (.invalidValue kind value "a segment value is non-empty")
  match kind with
  | .forge => validateForgeId value
  | .usage =>
    refuseIf (normaliseUsage lower value ≠ value)
      (.invalidValue kind value "usage providers and accounts are trimmed and lowercase")
  | .changeRequest | .issue =>
    refuseIf (¬ (isCanonicalNumber value ∧
        (Decimal.parse (2 ^ 64 - 1) (String.ofList value)).isSome))
      (.invalidValue kind value "a number is decimal digits with no sign or leading zero")
  | .commit =>
    refuseIf (¬ (value.all isLowerHex ∧
        ((utf8Bytes value).length = 40 ∨ (utf8Bytes value).length = 64)))
      (.invalidValue kind value "a commit is a full lowercase SHA")
  | _ => .ok ()

/-! ### Constructors -/

/-- A step of an address's path: a segment, or the subject of an artifact. -/
abbrev Step := Option Kind × Text

def spell (step : Step) : Text := (step.1.elim OF Kind.asStr) ++ ':' :: encode step.2

namespace Address

def empty : Address := { segments := [], of := none, text := [] }

variable (address : Address)

def lastKind : Option Kind := address.segments.getLast?.map Segment.kind

/-- A repository of the built-in forge is lowercase. -/
def checkRepository (kind : Kind) (value : Text) : Except Error Unit :=
  if kind = .repo ∧ address.segments.head?.map Segment.value = some githubForgeId then do
    validateRepository .github value
    refuseIf (ForgeKind.github.normaliseRepository lower value ≠ value)
      (.invalidValue kind value "a GitHub repository is lowercase")
  else .ok ()

/-- The address with one more segment, not checked. -/
def pushed (kind : Kind) (value : Text) : Address :=
  { address with
    segments := address.segments ++ [⟨kind, value⟩]
    text := (if address.text = [] then [] else address.text ++ ['/']) ++ spell (some kind, value) }

def push (kind : Kind) (value : Text) : Except Error Address := do
  refuseIf (address.of.isSome = true) .ofNotLast
  refuseIf (kind.mayFollow address.lastKind = false) (.shape kind address.lastKind)
  refuseIf (kind = .account ∧ address.lastKind = some .usage ∧ normaliseUsage lower value ≠ value)
    (.invalidValue kind value "usage accounts are trimmed and lowercase")
  validateValue lower kind value
  checkRepository lower address kind value
  pure (address.pushed kind value)

/-- This address extended by one segment. -/
def child (kind : Kind) (value : Text) : Except Error Address := do
  refuseIf (kind = .repo) .repositoryNeedsForge
  push lower address kind value

/-- A one-segment address of a root kind. -/
def root (kind : Kind) (value : Text) : Except Error Address := child lower empty kind value

/-- A repository, in the forge kind's case. -/
def repository (forge : Forge) (repository : Text) : Except Error Address := do
  validateRepository forge.kind repository
  let address ← root lower .forge forge.id
  push lower address .repo (forge.kind.normaliseRepository lower repository)

def withSubject (subject : Text) : Address :=
  { address with
    of := some subject
    text := address.text ++ '/' :: spell (none, subject) }

/-- An artifact slot under this role. -/
def artifact (kind subject : Text) : Except Error Address := do
  let address ← child lower address .artifact kind
  validateValue lower .artifact subject
  pure (address.withSubject subject)

def finish : Except Error Address := do
  refuseIf (address.segments = []) .empty
  refuseIf (address.lastKind = some .artifact ∧ address.of = none) .artifactWithoutSubject
  pure address

/-- The text before the last `count` separators. -/
def cutLast : Nat → Text → Option Text
  | 0, text => some text
  | count + 1, text => (splitOnce '/' text.reverse).bind fun p => cutLast count p.2.reverse

/-- The address one segment up; an artifact's parent is its role. -/
def parent : Option Address :=
  if address.segments.length ≤ 1 then none
  else (cutLast (1 + address.of.isSome.toNat) address.text).map fun text =>
    { segments := address.segments.take (address.segments.length - 1), of := none, text }

/-- Whether this address is `ancestor` or lies under it, on segment boundaries. -/
def isUnder (address ancestor : Address) : Bool :=
  (address.text.dropPrefix? ancestor.text).any fun rest => rest = [] || rest.head? = some '/'

/-- Bounds of the texts strictly under this one. -/
def descendantBounds : Text × Text :=
  (address.text ++ ['/'], address.text ++ ['0'])

/-! ### Parsing -/

def parsePiece (raw token value : Text) : Except Error Address :=
  if token = OF then do
    refuseIf (address.lastKind ≠ some .artifact) .ofNotAfterArtifact
    validateValue lower .artifact value
    pure { address with of := some value, text := address.text ++ '/' :: raw }
  else do
    let kind ← Kind.fromStr token
    push lower address kind value

def parseSegment (raw : Text) : Except Error Address := do
  refuseIf (address.of.isSome = true) .ofNotLast
  let piece ← okOr (splitOnce ':' raw) (.malformedSegment raw)
  let value ← decodeCanonical piece.2
  parsePiece lower address raw piece.1 value

/-- Parses canonical text, with no lookups. -/
def parse (text : Text) : Except Error Address := do
  let address ← (text.splitOn '/').foldlM (parseSegment lower) empty
  finish address

/-- The addresses the public constructors build, out of accepted texts too if `fromText`. -/
inductive Built (fromText : Bool) : Address → Prop
  | root {kind value a} : root lower kind value = .ok a → Built fromText a
  | child {a b kind value} : Built fromText a → child lower a kind value = .ok b →
      Built fromText b
  | artifact {a b kind subject} : Built fromText a → artifact lower a kind subject = .ok b →
      Built fromText b
  | repository {forge value a} : repository lower forge value = .ok a → Built fromText a
  | parent {a b} : Built fromText a → a.parent = some b → Built fromText b
  | parse {text a} : fromText = true → parse lower text = .ok a → Built fromText a

/-- An artifact that lacks its subject. -/
def IsBareArtifact : Prop :=
  address.lastKind = some .artifact ∧ address.of = none

instance (address : Address) : Decidable address.IsBareArtifact :=
  inferInstanceAs (Decidable (_ ∧ _))

/-! ### Steps -/

def path : List Step :=
  address.segments.map (fun segment => (some segment.kind, segment.value)) ++
    (address.of.map fun subject => (none, subject)).toList

/-- The addresses that segments and subjects were added to one by one. -/
inductive Grown : Address → Prop
  | empty : Grown empty
  | push {a b kind value} : Grown a → push lower a kind value = .ok b → Grown b
  | subject {a value} : Grown a → a.IsBareArtifact → validateValue lower .artifact value = .ok () →
      Grown (a.withSubject value)

end Address

theorem token_ne_of (kind : Kind) : kind.asStr ≠ OF := by
  cases kind <;> decide

theorem spell_injective : Function.Injective spell := by
  have htoken : ∀ kind : Option Kind, ':' ∉ kind.elim OF Kind.asStr := by
    rintro (_ | kind) h
    · exact absurd h (by decide)
    · exact absurd (kind.asStr_chars _ h) (by decide)
  rintro ⟨k, v⟩ ⟨k', v'⟩ h
  have hsplit := (splitOnce_append (encode v) (htoken k)).symm.trans
    ((congrArg (splitOnce ':') h).trans (splitOnce_append (encode v') (htoken k')))
  obtain ⟨hkind, hvalue⟩ := Prod.mk.inj (Option.some.inj hsplit)
  have hv : v = v' := Except.ok.inj
    ((decodeCanonical_encode v).symm.trans (hvalue ▸ decodeCanonical_encode v'))
  rcases k with _ | k <;> rcases k' with _ | k'
  · rw [hv]
  · exact absurd hkind.symm (token_ne_of k')
  · exact absurd hkind (token_ne_of k)
  · rw [hv, Kind.asStr_injective hkind]

theorem isAlphanum_ascii {c : Char} (h : c.isAlphanum = true) : c.toNat < 128 ∧ c ≠ '/' := by
  refine ⟨?_, fun hc => absurd h (hc ▸ by decide)⟩
  simp only [Char.isAlphanum, Char.isAlpha, Char.isUpper, Char.isLower, Char.isDigit,
    Bool.or_eq_true, Bool.and_eq_true, decide_eq_true_eq, UInt32.le_iff_toNat_le] at h
  rcases h with (⟨-, h⟩ | ⟨-, h⟩) | ⟨-, h⟩ <;> exact Nat.lt_of_le_of_lt h (by decide)

theorem spell_chars {step : Step} {c : Char} (h : c ∈ spell step) :
    c.isAlphanum = true ∨ c ∈ ['-', '.', '_', '~', '%', ':'] := by
  rcases List.mem_append.mp h with h | h
  · rcases step with ⟨_ | kind, value⟩
    · have hof : OF.all Char.isAlphanum := by decide
      exact .inl (List.all_eq_true.mp hof c h)
    · exact .inl (by simp [Char.isAlphanum, Char.isAlpha, kind.asStr_chars c h])
  · rcases List.mem_cons.mp h with rfl | h
    · exact .inr (by decide)
    · exact (encode_chars h).imp_right fun h => List.mem_append_left [':'] h

/-- A spelled step is ASCII, with no separator inside. -/
theorem spell_ascii {step : Step} {c : Char} (h : c ∈ spell step) : c.toNat < 128 ∧ c ≠ '/' := by
  rcases spell_chars h with h | h
  · exact isAlphanum_ascii h
  · have hrest : ['-', '.', '_', '~', '%', ':'].all fun c => c.toNat < 128 ∧ c ≠ '/' := by decide
    simpa using List.all_eq_true.mp hrest c h

theorem slash_not_mem_spell (step : Step) : '/' ∉ spell step := fun h => (spell_ascii h).2 rfl

theorem spell_ne_nil (step : Step) : spell step ≠ [] := by simp [spell]

namespace Address

variable {lower} {a b : Address} {kind : Kind} {value : Text}

theorem push_eq_ok (h : push lower a kind value = .ok b) :
    a.of = none ∧ kind.mayFollow a.lastKind = true ∧ b = a.pushed kind value := by
  obtain ⟨hof, h⟩ := of_refuseIf h
  obtain ⟨hshape, h⟩ := of_refuseIf h
  obtain ⟨_, -, h⟩ := bind_eq_ok h
  obtain ⟨_, -, h⟩ := bind_eq_ok h
  obtain ⟨_, -, h⟩ := bind_eq_ok h
  cases h
  exact ⟨by simpa using hof, by simpa using hshape, rfl⟩

theorem child_eq_ok (h : child lower a kind value = .ok b) : push lower a kind value = .ok b :=
  (bind_eq_ok h).choose_spec.2

theorem path_pushed (h : a.of = none) :
    (a.pushed kind value).path = a.path ++ [(some kind, value)] := by
  simp [path, pushed, h]

theorem path_withSubject (h : a.of = none) :
    (a.withSubject value).path = a.path ++ [(none, value)] := by
  simp [path, withSubject, h]

/-- Reading the spelling of a segment pushes it. -/
theorem parseSegment_spell (h : a.of = none) :
    parseSegment lower a (spell (some kind, value)) = push lower a kind value := by
  have hcolon : ':' ∉ kind.asStr := fun hmem => absurd (kind.asStr_chars _ hmem) (by decide)
  refine (refuseIf_bind (by simp [h])).trans ?_
  refine (bind_ok (okOr_eq_ok.mpr (splitOnce_append (encode value) hcolon))).trans ?_
  refine (bind_ok (decodeCanonical_encode value)).trans ?_
  rw [parsePiece, if_neg (token_ne_of kind)]
  exact bind_ok (Kind.fromStr_asStr kind)

theorem parseSegment_subject (hbare : a.IsBareArtifact)
    (hvalue : validateValue lower .artifact value = .ok ()) :
    parseSegment lower a (spell (none, value)) = .ok (a.withSubject value) := by
  refine (refuseIf_bind (by simp [hbare.2])).trans ?_
  have hcolon : ':' ∉ OF := by decide
  refine (bind_ok (okOr_eq_ok.mpr (splitOnce_append (encode value) hcolon))).trans ?_
  refine (bind_ok (decodeCanonical_encode value)).trans ?_
  refine (if_pos rfl).trans ?_
  exact (refuseIf_bind (by simp [hbare.1])).trans (bind_ok hvalue)

theorem joined_ne_nil {pieces : List Step} (h : pieces ≠ []) :
    joined '/' (pieces.map spell) ≠ [] := by
  cases pieces with
  | nil => exact absurd rfl h
  | cons p pieces =>
    cases pieces with
    | nil => simpa [joined] using spell_ne_nil p
    | cons q pieces => simp [joined, List.intercalate_cons_cons]

theorem splitOn_joined {steps : List Step} (h : steps ≠ []) :
    (joined '/' (steps.map spell)).splitOn '/' = steps.map spell := by
  refine List.splitOn_intercalate '/' ?_ (by simpa)
  rintro piece hpiece
  obtain ⟨step, -, rfl⟩ := List.mem_map.mp hpiece
  exact slash_not_mem_spell step

/-- The text of a grown address is its path, spelled and joined. -/
theorem Grown.text_eq (h : Grown lower a) : a.text = joined '/' (a.path.map spell) := by
  induction h with
  | empty => rfl
  | @push a b kind value _ hpush ih =>
    obtain ⟨hof, -, rfl⟩ := push_eq_ok hpush
    rw [path_pushed hof, List.map_append]
    by_cases hnil : a.path = []
    · rw [hnil] at ih ⊢
      simp [pushed, ih, joined]
    · refine Eq.trans ?_ (joined_concat _ (by simpa using hnil)).symm
      simp [pushed, ih, joined_ne_nil hnil]
  | @subject a value _ hbare _ ih =>
    have hnil : a.path ≠ [] := by
      intro hpath
      have hsegments : a.segments = [] := by simpa [path] using (List.append_eq_nil_iff.mp hpath).1
      simpa [lastKind, hsegments] using hbare.1
    rw [path_withSubject hbare.2, List.map_append]
    refine Eq.trans ?_ (joined_concat _ (by simpa using hnil)).symm
    simp [withSubject, ih]

theorem Grown.text_chars (h : Grown lower a) :
    ∀ c ∈ a.text, c.isAlphanum = true ∨ c ∈ ['-', '.', '_', '~', '%', ':', '/'] := by
  have hspell : ∀ {step c}, c ∈ spell step →
      c.isAlphanum = true ∨ c ∈ ['-', '.', '_', '~', '%', ':', '/'] :=
    fun h => (spell_chars h).imp_right fun h => List.mem_append_left ['/'] h
  induction h with
  | empty => exact fun c h => absurd h List.not_mem_nil
  | push _ hpush ih =>
    obtain ⟨-, -, rfl⟩ := push_eq_ok hpush
    intro c hc
    rcases List.mem_append.mp hc with hc | hc
    · split at hc
      · exact absurd hc List.not_mem_nil
      · rcases List.mem_append.mp hc with hc | hc
        · exact ih c hc
        · exact .inr (by simp_all)
    · exact hspell hc
  | subject _ _ _ ih =>
    intro c hc
    rcases List.mem_append.mp hc with hc | hc
    · exact ih c hc
    · rcases List.mem_cons.mp hc with rfl | hc
      · exact .inr (by decide)
      · exact hspell hc

/-- Reading the path of a grown address replays its growth. -/
theorem Grown.replays (h : Grown lower a) :
    (a.path.map spell).foldlM (parseSegment lower) Address.empty = .ok a := by
  induction h with
  | empty => rfl
  | push _ hpush ih =>
    obtain ⟨hof, -, rfl⟩ := push_eq_ok hpush
    rw [path_pushed hof, List.map_append, List.foldlM_append, bind_ok ih]
    exact (bind_ok ((parseSegment_spell hof).trans hpush)).trans rfl
  | subject _ hbare hvalue ih =>
    rw [path_withSubject hbare.2, List.map_append, List.foldlM_append, bind_ok ih]
    exact (bind_ok (parseSegment_subject hbare hvalue)).trans rfl

theorem Grown.eq_of_text (ha : Grown lower a) (hb : Grown lower b) (h : a.text = b.text) :
    a = b := by
  have hpieces : a.path.map spell = b.path.map spell := by
    rw [ha.text_eq, hb.text_eq] at h
    by_cases hnila : a.path = [] <;> by_cases hnilb : b.path = []
    · rw [hnila, hnilb]
    · rw [hnila] at h
      exact absurd h.symm (joined_ne_nil hnilb)
    · rw [hnilb] at h
      exact absurd h (joined_ne_nil hnila)
    · rw [← splitOn_joined hnila, h, splitOn_joined hnilb]
  exact Except.ok.inj (ha.replays.symm.trans (hpieces ▸ hb.replays))

/-- One piece of text, accepted, is one more step of the path. -/
theorem Grown.parseSegment {raw : Text} (ha : Grown lower a)
    (h : parseSegment lower a raw = .ok b) :
    Grown lower b ∧ b.path.map spell = a.path.map spell ++ [raw] := by
  obtain ⟨hof, h⟩ := of_refuseIf h
  obtain ⟨⟨token, encoded⟩, hpiece, h⟩ := bind_eq_ok h
  obtain ⟨value, hvalue, h⟩ := bind_eq_ok h
  have hof : a.of = none := by simpa using hof
  obtain ⟨hraw, -⟩ := splitOnce_eq_some (okOr_eq_ok.mp hpiece)
  have hencoded : encode value = encoded := encode_of_decodeCanonical hvalue
  rw [← hencoded] at hraw
  rw [parsePiece] at h
  split at h
  · obtain ⟨hlast, h⟩ := of_refuseIf h
    obtain ⟨_, hvalid, h⟩ := bind_eq_ok h
    have hbare : a.IsBareArtifact := ⟨by simpa using hlast, hof⟩
    have hspell : raw = spell (none, value) := by rw [hraw, ‹token = OF›]; rfl
    subst hspell
    cases h
    refine ⟨.subject ha hbare hvalid, ?_⟩
    rw [← withSubject, path_withSubject hof, List.map_append]
    rfl
  · obtain ⟨kind, hkind, h⟩ := bind_eq_ok h
    obtain ⟨-, -, rfl⟩ := push_eq_ok h
    have htoken : kind.asStr = token := Kind.asStr_of_fromStr hkind
    have hspell : raw = spell (some kind, value) := by rw [hraw, ← htoken]; rfl
    exact ⟨.push ha h, by rw [path_pushed hof, List.map_append, hspell]; rfl⟩

theorem Grown.fold {pieces : List Text} (ha : Grown lower a)
    (h : pieces.foldlM (Address.parseSegment lower) a = .ok b) :
    Grown lower b ∧ b.path.map spell = a.path.map spell ++ pieces := by
  induction pieces generalizing a with
  | nil =>
    cases h
    exact ⟨ha, (List.append_nil _).symm⟩
  | cons raw pieces ih =>
    obtain ⟨c, hc, h⟩ := bind_eq_ok h
    obtain ⟨hgrown, hpath⟩ := ha.parseSegment hc
    obtain ⟨hb, hpathb⟩ := ih hgrown h
    exact ⟨hb, by rw [hpathb, hpath, List.append_assoc]; rfl⟩

theorem finish_eq_ok : finish a = .ok b ↔ a.segments ≠ [] ∧ ¬ a.IsBareArtifact ∧ b = a := by
  constructor
  · intro h
    obtain ⟨hne, h⟩ := of_refuseIf h
    obtain ⟨hbare, h⟩ := of_refuseIf h
    cases h
    exact ⟨hne, hbare, rfl⟩
  · rintro ⟨hne, hbare, rfl⟩
    exact (refuseIf_bind hne).trans (refuseIf_bind hbare)

theorem grown_of_parse {text : Text} (h : parse lower text = .ok a) :
    Grown lower a ∧ a.text = text ∧ ¬ a.IsBareArtifact := by
  obtain ⟨b, hfold, hfinish⟩ := bind_eq_ok h
  obtain ⟨-, hbare, rfl⟩ := finish_eq_ok.mp hfinish
  obtain ⟨hgrown, hpath⟩ := Grown.empty.fold hfold
  refine ⟨hgrown, ?_, hbare⟩
  rw [hgrown.text_eq, hpath]
  exact List.intercalate_splitOn '/'

theorem Grown.parse_text (h : Grown lower a) (hne : a.segments ≠ []) :
    Address.parse lower a.text = finish a := by
  have hpath : a.path ≠ [] := by simp [path, hne]
  rw [Address.parse, h.text_eq, splitOn_joined hpath]
  exact bind_ok h.replays

/-! ### Parents -/

theorem cutLast_append {count : Nat} {text : Text} (step : Step) :
    cutLast (count + 1) (text ++ '/' :: spell step) = cutLast count text := by
  have hreverse : (text ++ '/' :: spell step).reverse =
      (spell step).reverse ++ '/' :: text.reverse := by
    simp
  rw [cutLast, hreverse, splitOnce_append _ (by simpa using slash_not_mem_spell step)]
  simp

theorem Grown.text_ne_nil (h : Grown lower a) (hne : a.segments ≠ []) : a.text ≠ [] := by
  rw [h.text_eq]
  exact joined_ne_nil (by simp [path, hne])

theorem Grown.parent_pushed (h : Grown lower a) (hof : a.of = none) :
    (a.pushed kind value).parent = if a.segments = [] then none else some a := by
  by_cases hne : a.segments = []
  · simp [parent, pushed, hne]
  · have htext : (a.pushed kind value).text = a.text ++ '/' :: spell (some kind, value) := by
      simp [pushed, h.text_ne_nil hne]
    have hlength : ¬ (a.pushed kind value).segments.length ≤ 1 := by
      have := List.length_pos_iff.mpr hne
      simp only [pushed, List.length_append, List.length_singleton]
      omega
    rw [parent, if_neg hlength, if_neg hne, htext]
    have hpushed : (a.pushed kind value).of = none := hof
    simp only [hpushed, Option.isSome_none, Bool.toNat_false, Nat.add_zero]
    rw [show 1 = 0 + 1 from rfl, cutLast_append]
    obtain ⟨segments, of, text⟩ := a
    cases hof
    simp [cutLast, pushed]

theorem parent_withSubject (hof : a.of = none) : (a.withSubject value).parent = a.parent := by
  have hcut : cutLast 2 (a.text ++ '/' :: spell (none, value)) = cutLast 1 a.text :=
    cutLast_append _
  simp only [parent, withSubject, hof, Option.isSome_some, Option.isSome_none, Bool.toNat_true,
    Bool.toNat_false, Nat.add_zero, hcut]

theorem Grown.parent (h : Grown lower a) (hparent : a.parent = some b) : Grown lower b := by
  induction h with
  | empty => cases hparent
  | push ha hpush ih =>
    obtain ⟨hof, -, rfl⟩ := push_eq_ok hpush
    rw [ha.parent_pushed hof] at hparent
    split at hparent
    · cases hparent
    · cases hparent
      exact ha
  | subject ha hbare _ ih => exact ih (by rwa [parent_withSubject hbare.2] at hparent)

/-! ### The round trip -/

theorem Grown.artifact {subject : Text} (h : Grown lower a)
    (hb : artifact lower a value subject = .ok b) :
    Grown lower b ∧ b.segments ≠ [] ∧ b.of = some subject := by
  obtain ⟨c, hc, hb⟩ := bind_eq_ok hb
  obtain ⟨_, hvalid, hb⟩ := bind_eq_ok hb
  cases hb
  have hpush := child_eq_ok hc
  obtain ⟨hof, -, rfl⟩ := push_eq_ok hpush
  refine ⟨.subject (.push h hpush) ⟨by simp [lastKind, pushed], hof⟩ hvalid, ?_, rfl⟩
  simp [withSubject, pushed]

theorem segments_ne_nil_of_push (h : push lower a kind value = .ok b) : b.segments ≠ [] := by
  obtain ⟨-, -, rfl⟩ := push_eq_ok h
  simp [pushed]

theorem parent_segments_ne_nil (h : a.parent = some b) : b.segments ≠ [] := by
  rw [Address.parent] at h
  split at h
  · cases h
  · obtain ⟨text, -, rfl⟩ := Option.map_eq_some_iff.mp h
    intro hnil
    have := congrArg List.length hnil
    simp only [List.length_take, List.length_nil] at this
    omega

theorem Built.grown {fromText : Bool} (h : Built lower fromText a) :
    Grown lower a ∧ a.segments ≠ [] := by
  induction h with
  | root h =>
    have hpush := child_eq_ok h
    exact ⟨.push .empty hpush, segments_ne_nil_of_push hpush⟩
  | child _ h ih =>
    have hpush := child_eq_ok h
    exact ⟨.push ih.1 hpush, segments_ne_nil_of_push hpush⟩
  | artifact _ h ih => exact ⟨(ih.1.artifact h).1, (ih.1.artifact h).2.1⟩
  | repository h =>
    obtain ⟨_, -, h⟩ := bind_eq_ok h
    obtain ⟨forge, hforge, h⟩ := bind_eq_ok h
    exact ⟨.push (.push .empty (child_eq_ok hforge)) h, segments_ne_nil_of_push h⟩
  | parent _ h ih => exact ⟨ih.1.parent h, parent_segments_ne_nil h⟩
  | parse _ h =>
    obtain ⟨b, -, hfinish⟩ := bind_eq_ok h
    obtain ⟨hne, -, rfl⟩ := finish_eq_ok.mp hfinish
    exact ⟨(grown_of_parse h).1, hne⟩

/-- The canonical text and the address determine each other; the text parses unless the
address is an artifact that lacks its subject. -/
theorem canonical_text (lower : Text → Text) :
    (∀ a, Built lower true a → (parse lower a.text = .ok a ↔ ¬ a.IsBareArtifact)) ∧
      (∀ text a, parse lower text = .ok a → a.text = text) ∧
      ∀ a b, Built lower true a → Built lower true b → a.text = b.text → a = b := by
  refine ⟨?_, fun text a h => (grown_of_parse h).2.1,
    fun a b ha hb h => ha.grown.1.eq_of_text hb.grown.1 h⟩
  intro a h
  obtain ⟨hgrown, hne⟩ := h.grown
  rw [hgrown.parse_text hne, finish_eq_ok]
  exact ⟨fun h => h.2.1, fun h => ⟨hne, h, rfl⟩⟩

theorem built_project : Built toAsciiLowercase true (empty.pushed .project ['x']) := by
  have hroot : root toAsciiLowercase .project ['x'] = .ok (empty.pushed .project ['x']) := by
    decide +kernel
  exact .root hroot

theorem built_role :
    Built toAsciiLowercase true ((empty.pushed .project ['x']).pushed .role ['r']) := by
  have hchild : child toAsciiLowercase (empty.pushed .project ['x']) .role ['r'] =
      .ok ((empty.pushed .project ['x']).pushed .role ['r']) := by decide +kernel
  exact .child built_project hchild

theorem child_artifact : child toAsciiLowercase ((empty.pushed .project ['x']).pushed .role ['r'])
    .artifact ['k'] =
      .ok (((empty.pushed .project ['x']).pushed .role ['r']).pushed .artifact ['k']) := by
  decide +kernel

theorem canonical_text_role : ∃ role, Built toAsciiLowercase true role ∧
    role.text = "project:x/role:r".toList ∧ parse toAsciiLowercase role.text = .ok role :=
  ⟨_, built_role, by decide +kernel,
    ((canonical_text toAsciiLowercase).1 _ built_role).mpr (by decide)⟩

/-- `child` builds an artifact without its subject, which does not read back. -/
theorem bareArtifact_refused : ∃ role bare, Built toAsciiLowercase true role ∧
    child toAsciiLowercase role .artifact ['k'] = .ok bare ∧ Built toAsciiLowercase true bare ∧
      parse toAsciiLowercase bare.text = .error .artifactWithoutSubject :=
  ⟨_, _, built_role, child_artifact, .child built_role child_artifact, by decide +kernel⟩

/-! ### Descendants -/

/-- The order of stored texts. -/
def InBounds (ancestor address : Address) : Prop :=
  ¬ utf8Bytes address.text < utf8Bytes ancestor.descendantBounds.1 ∧
    utf8Bytes address.text < utf8Bytes ancestor.descendantBounds.2

theorem utf8Bytes_joined (pieces : List Text) :
    utf8Bytes (joined '/' pieces) = joined 47 (pieces.map utf8Bytes) := by
  induction pieces with
  | nil => rfl
  | cons p pieces ih =>
    cases pieces with
    | nil => simp [joined]
    | cons q pieces =>
      simp only [joined, List.map_cons, List.intercalate_cons_cons] at ih ⊢
      rw [utf8Bytes_append, utf8Bytes_append, ih]
      rfl

theorem slash_not_mem_utf8Bytes (step : Step) : 47 ∉ utf8Bytes (spell step) := by
  have hascii : ∀ n < 128, 47 ∈ String.utf8EncodeChar (Char.ofNat n) → n = 47 := by decide +kernel
  intro h
  obtain ⟨c, hc, h⟩ := List.mem_flatMap.mp h
  obtain ⟨hlt, hne⟩ := spell_ascii hc
  have hslash := hascii c.toNat hlt (by rwa [Char.ofNat_toNat])
  exact hne ((Char.ofNat_toNat c).symm.trans (congrArg Char.ofNat hslash))

theorem Grown.inBounds_iff (ha : Grown lower a) (hb : Grown lower b) (hnea : a.segments ≠ [])
    (hneb : b.segments ≠ []) : a.InBounds b ↔ a.path <+: b.path ∧ a.path ≠ b.path := by
  have hinjective : Function.Injective (utf8Bytes ∘ spell) :=
    utf8Bytes_injective.comp spell_injective
  have hbytes : ∀ {c : Address}, Grown lower c →
      utf8Bytes c.text = joined 47 (c.path.map (utf8Bytes ∘ spell)) := by
    intro c hc
    rw [hc.text_eq, utf8Bytes_joined, List.map_map]
  have hpieces : ∀ c : Address, ∀ piece ∈ c.path.map (utf8Bytes ∘ spell), 47 ∉ piece := by
    intro c piece hpiece
    obtain ⟨step, -, rfl⟩ := List.mem_map.mp hpiece
    exact slash_not_mem_utf8Bytes step
  rw [InBounds, descendantBounds, utf8Bytes_append, utf8Bytes_append]
  refine (prefix_iff_range (a := 47) (b := 48) UInt8.lt_irrefl ?_ _ _).trans ?_
  · intro c
    rw [UInt8.lt_iff_toNat_lt, UInt8.lt_iff_toNat_lt, ← UInt8.toNat_inj]
    have h47 : (47 : UInt8).toNat = 47 := rfl
    have h48 : (48 : UInt8).toNat = 48 := rfl
    omega
  · rw [hbytes ha, hbytes hb, joined_prefix_iff (by simp [path, hnea]) (hpieces a) (hpieces b)
      (by simp [path, hneb]), List.prefix_map_iff_of_injective hinjective,
      ne_eq, (List.map_injective_iff.mpr hinjective).eq_iff]

theorem isUnder_iff_text : b.isUnder a = true ↔ b.text = a.text ∨ a.text ++ ['/'] <+: b.text := by
  rw [isUnder, Option.any_eq_true]
  constructor
  · rintro ⟨rest, hrest, h⟩
    obtain ⟨p, hp, heq⟩ := List.dropPrefix?_eq_some_iff.mp hrest
    cases eq_of_beq heq
    cases rest with
    | nil => exact .inl (by simpa using hp)
    | cons c rest =>
      have hc : c = '/' := by simpa using h
      exact .inr ⟨rest, by simp [hp, hc]⟩
  · rintro (h | ⟨rest, h⟩)
    · exact ⟨[], List.dropPrefix?_eq_some_iff.mpr ⟨a.text, by simp [h], beq_self_eq_true _⟩, rfl⟩
    · exact ⟨'/' :: rest, List.dropPrefix?_eq_some_iff.mpr
        ⟨a.text, by simp [← h], beq_self_eq_true _⟩, rfl⟩

theorem Grown.isUnder_iff (ha : Grown lower a) (hb : Grown lower b) (hnea : a.segments ≠ [])
    (hneb : b.segments ≠ []) : b.isUnder a = true ↔ a.path <+: b.path := by
  have hpieces : ∀ c : Address, ∀ piece ∈ c.path.map spell, '/' ∉ piece := by
    intro c piece hpiece
    obtain ⟨step, -, rfl⟩ := List.mem_map.mp hpiece
    exact slash_not_mem_spell step
  rw [isUnder_iff_text, ha.text_eq, hb.text_eq, joined_prefix_iff (by simp [path, hnea]) (hpieces a)
    (hpieces b) (by simp [path, hneb]), List.prefix_map_iff_of_injective spell_injective,
    ← ha.text_eq, ← hb.text_eq]
  constructor
  · rintro (h | h)
    · rw [hb.eq_of_text ha h]
    · exact h.1
  · intro h
    by_cases heq : a.path = b.path
    · exact .inl (by rw [ha.text_eq, hb.text_eq, heq])
    · exact .inr ⟨h, fun hmap => heq ((List.map_injective_iff.mpr spell_injective) hmap)⟩

/-- Nothing follows an artifact but its subject, and only an artifact has one. -/
theorem Grown.artifact_last (h : Grown lower a) :
    (∀ l s t, a.segments = l ++ s :: t → s.kind = .artifact → t = []) ∧
      (a.of ≠ none → a.lastKind = some .artifact) := by
  induction h with
  | empty => exact ⟨by simp [Address.empty], fun h => absurd rfl h⟩
  | @push a b kind value _ hpush ih =>
    obtain ⟨hof, hfollow, rfl⟩ := push_eq_ok hpush
    refine ⟨?_, fun h => absurd hof h⟩
    intro l s t hsplit hs
    induction t using List.reverseRecOn with
    | nil => rfl
    | append_singleton t last _ =>
      have hinit : a.segments ++ [⟨kind, value⟩] = (l ++ s :: t) ++ [last] := by
        simpa [pushed] using hsplit
      obtain ⟨hsegments, -⟩ := List.append_inj' hinit rfl
      have htnil := ih.1 l s t hsegments hs
      have hparent : a.lastKind = some .artifact := by simp [lastKind, hsegments, htnil, hs]
      rw [hparent] at hfollow
      cases kind <;> exact absurd hfollow (by decide)
  | subject _ hbare _ ih => exact ⟨ih.1, fun _ => hbare.1⟩

/-- The path of a complete address goes on exactly when its segments do. -/
theorem Grown.path_prefix_iff (ha : Grown lower a) (hb : Grown lower b)
    (hbare : ¬ a.IsBareArtifact) :
    (a.path <+: b.path ∧ a.path ≠ b.path) ↔
      (a.segments <+: b.segments ∧ a.segments ≠ b.segments) := by
  have hmap : Function.Injective fun s : Segment => ((some s.kind, s.value) : Step) := by
    rintro ⟨k, v⟩ ⟨k', v'⟩ h
    simpa using h
  -- A path that properly begins another one begins its segments: the subject is the last step.
  have hsegments : ∀ {p : List Step}, p <+: b.path → p ≠ b.path →
      p <+: b.segments.map fun s => (some s.kind, s.value) := by
    intro p hbegins hne
    rcases hofb : b.of with _ | subject
    · simpa [path, hofb] using hbegins
    · rw [path, hofb] at hbegins hne
      exact (List.prefix_concat_iff.mp hbegins).resolve_left hne
  cases hof : a.of with
  | none =>
    have hpath : a.path = a.segments.map fun s => (some s.kind, s.value) := by simp [path, hof]
    rw [hpath]
    constructor
    · rintro ⟨hbegins, hne⟩
      refine ⟨(List.prefix_map_iff_of_injective hmap).mp (hsegments hbegins hne), fun heq => ?_⟩
      rcases hofb : b.of with _ | subject
      · exact hne (by simp [path, hofb, heq])
      · exact hbare ⟨by rw [lastKind, heq]; exact hb.artifact_last.2 (by simp [hofb]), hof⟩
    · rintro ⟨⟨rest, hrest⟩, hne⟩
      refine ⟨⟨rest.map (fun s => (some s.kind, s.value)) ++
        (b.of.map fun subject => (none, subject)).toList, by simp [path, ← hrest]⟩, ?_⟩
      intro heq
      have hlength := congrArg List.length heq
      simp only [path, List.length_append, List.length_map, ← hrest] at hlength
      exact hne
        (by rw [← hrest, List.eq_nil_of_length_eq_zero (l := rest) (by omega), List.append_nil])
  | some subject =>
    constructor
    · rintro ⟨hbegins, hne⟩
      have hmem : ((none, subject) : Step) ∈ a.path := by simp [path, hof]
      simpa using (hsegments hbegins hne).subset hmem
    · rintro ⟨⟨rest, hrest⟩, hne⟩
      obtain ⟨s, hs, hkind⟩ := Option.map_eq_some_iff.mp (ha.artifact_last.2 (by simp [hof]))
      obtain ⟨l, hl⟩ := List.getLast?_eq_some_iff.mp hs
      have hnil := hb.artifact_last.1 l s rest (by rw [← hrest, hl]; simp) hkind
      exact absurd (by rw [← hrest, hnil, List.append_nil]) hne

/-- The texts between the bounds of an address are those of the addresses strictly under it,
the subject of an artifact being the last of its steps. -/
theorem descendants_in_bounds (lower : Text → Text) (ancestor address : Address)
    (hancestor : Built lower true ancestor) (haddress : Built lower true address) :
    (ancestor.InBounds address ↔
        ancestor.path <+: address.path ∧ ancestor.path ≠ address.path) ∧
      (address.isUnder ancestor = true ↔ ancestor.path <+: address.path) ∧
      (¬ ancestor.IsBareArtifact → (ancestor.InBounds address ↔
        ancestor.segments <+: address.segments ∧ ancestor.segments ≠ address.segments)) := by
  obtain ⟨ha, hnea⟩ := hancestor.grown
  obtain ⟨hb, hneb⟩ := haddress.grown
  have hbounds := ha.inBounds_iff hb hnea hneb
  exact ⟨hbounds, ha.isUnder_iff hb hnea hneb,
    fun hbare => hbounds.trans (ha.path_prefix_iff hb hbare)⟩

theorem role_in_bounds_of_project : ∃ project role, Built toAsciiLowercase true project ∧
    Built toAsciiLowercase true role ∧ project.InBounds role :=
  ⟨_, _, built_project, built_role,
    (descendants_in_bounds toAsciiLowercase _ _ built_project built_role).1.mpr (by decide +kernel)⟩

end Address

end Flotilla.Addressing
