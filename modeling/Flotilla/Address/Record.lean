import Flotilla.Address.Canonical
import Flotilla.Lib.Bytes

/-!
# Record names

The name of the record that is kept about the thing an address names.  Change requests and
issues spell their forge and repository in hex; artifacts and usage accounts are hashed, the
parts of an artifact behind their lengths and those of an account with a NUL between them.
`sha256` is the digest in hex.

* `SameParts` : the parts a name stands for agree.
* `recordName_eq_iff` : names are equal exactly for the same parts, unless a NUL inside a
  provider or an account stands for the separator.
-/

namespace Flotilla.Addressing

open Lib

def githubRecordService : Text := "github.com".toList

namespace Address

variable (lower : Text → Text) (sha256 : List UInt8 → Text) (address : Address)

def name : Text := (address.segments.getLast?.map Segment.value).getD []

def get (kind : Kind) : Option Text :=
  (address.segments.find? fun segment => segment.kind = kind).map Segment.value

def number : Option Nat :=
  if address.lastKind = some .changeRequest ∨ address.lastKind = some .issue then
    Decimal.parse (2 ^ 64 - 1) (String.ofList address.name)
  else none

/-- The service spelling record names were first derived from. -/
def service (forge : Text) : Text := if forge = githubForgeId then githubRecordService else forge

def hexText (value : Text) : Text := (hex (utf8Bytes value)).toList

def forgeRecordName (tag : Text) : Option Text := do
  let forge ← address.get .forge
  let repository ← address.get .repo
  let number ← address.number
  pure (tag ++ '-' :: (hexText (service forge) ++ '-' :: (hexText repository ++
    '-' :: (toString number).toList)))

/-- What is hashed for a name. -/
def hashedInput : Option (List UInt8) :=
  match address.lastKind with
  | some .artifact => do
    let convoy ← address.get .convoy
    let role ← address.get .role
    let subject ← address.of
    pure ([convoy, role, address.name, subject].flatMap fun component =>
      frame (utf8Bytes component))
  | some .account => do
    let provider ← address.get .usage
    pure (utf8Bytes "usage-account-v2".toList ++ 0 :: (utf8Bytes (normaliseUsage lower provider) ++
      0 :: utf8Bytes (normaliseUsage lower address.name)))
  | _ => none

/-- The name of the record about the thing the address names, for a kind with such a record. -/
def recordName : Option Text :=
  match address.lastKind with
  | some .changeRequest => address.forgeRecordName "cr".toList
  | some .issue => address.forgeRecordName "issue".toList
  | some .artifact =>
    (address.hashedInput lower).map fun input => "artifact".toList ++ '-' :: sha256 input
  | some .account =>
    (address.hashedInput lower).map fun input => "usage".toList ++ '-' :: (sha256 input).take 54
  | some .project | some .convoy | some .host => some address.name
  | _ => none

/-- Same kind, and the same parts that a name of that kind stands for. -/
def SameParts (a b : Address) : Prop :=
  a.lastKind = b.lastKind ∧
    match a.lastKind with
    | some .changeRequest | some .issue =>
      a.get .forge = b.get .forge ∧ a.get .repo = b.get .repo ∧ a.number = b.number
    | some .artifact =>
      a.get .convoy = b.get .convoy ∧ a.get .role = b.get .role ∧ a.name = b.name ∧ a.of = b.of
    | some .account => a.get .usage = b.get .usage ∧ a.name = b.name
    | _ => False

/-- Two accounts where a NUL of one provider stands in place of the other's separator. -/
def Shifts (a b : Address) : Prop :=
  a.lastKind = some .account ∧ b.lastKind = some .account ∧
    ∃ provider rest, a.get .usage = some (provider ++ '\x00' :: rest) ∧
      b.get .usage = some provider ∧ b.name = rest ++ '\x00' :: a.name

/-- A length in bytes is a machine word. -/
def Fits : Prop :=
  (∀ segment ∈ address.segments, Framable (utf8Bytes segment.value)) ∧
    ∀ subject ∈ address.of, Framable (utf8Bytes subject)

/-! ### The values of an address -/

variable {lower sha256} {a b : Address} {x y : Text}

theorem Grown.valid (h : a.Grown lower) {segment : Segment} (hmem : segment ∈ a.segments) :
    validateValue lower segment.kind segment.value = .ok () := by
  induction h with
  | empty => exact absurd hmem List.not_mem_nil
  | push hgrown hpush ih =>
    obtain ⟨_, _, h⟩ := bind_eq_ok hpush
    obtain ⟨_, _, h⟩ := bind_eq_ok h
    obtain ⟨_, _, h⟩ := bind_eq_ok h
    obtain ⟨_, hvalid, h⟩ := bind_eq_ok h
    obtain ⟨_, _, h⟩ := bind_eq_ok h
    cases h
    rcases List.mem_append.mp hmem with hmem | hmem
    · exact ih hmem
    · cases List.mem_singleton.mp hmem
      exact hvalid
  | subject _ _ _ ih => exact ih hmem

theorem mem_of_get {kind : Kind} {value : Text} (h : a.get kind = some value) :
    ⟨kind, value⟩ ∈ a.segments := by
  obtain ⟨⟨kind', value'⟩, hfind, rfl⟩ := Option.map_eq_some_iff.mp h
  obtain ⟨hmem, rfl⟩ := of_find? hfind
  exact hmem

theorem name_mem {kind : Kind} (h : a.lastKind = some kind) : ⟨kind, a.name⟩ ∈ a.segments := by
  obtain ⟨⟨_, value⟩, hlast, rfl⟩ := Option.map_eq_some_iff.mp h
  rw [name, hlast]
  exact List.mem_of_getLast? hlast

/-- A usage provider is normal. -/
theorem Grown.normal_provider (h : a.Grown lower) {provider : Text}
    (hget : a.get .usage = some provider) : normaliseUsage lower provider = provider := by
  obtain ⟨_, _, hvalid⟩ := bind_eq_ok (h.valid (mem_of_get hget))
  simpa using refuseIf_eq_ok.mp hvalid

/-- A forge id is a DNS label, so it is not the service that stands for GitHub. -/
theorem Grown.forge_ne_service (h : a.Grown lower) {forge : Text}
    (hget : a.get .forge = some forge) : forge ≠ githubRecordService := by
  rintro rfl
  obtain ⟨_, _, hvalid⟩ := bind_eq_ok (h.valid (mem_of_get hget))
  have hlabel : validateForgeId githubRecordService = .ok () := hvalid
  exact absurd hlabel (by decide +kernel)

/-- An account under a provider is normal. -/
theorem Grown.normal_account (h : a.Grown lower) (hkind : a.lastKind = some .account)
    {provider : Text} (hget : a.get .usage = some provider) :
    normaliseUsage lower a.name = a.name := by
  cases h with
  | empty => cases hkind
  | subject _ hbare _ =>
    have hartifact := hbare.1.symm.trans hkind
    cases hartifact
  | @push before _ kind value _ hpush =>
    obtain ⟨_, _, h⟩ := bind_eq_ok hpush
    obtain ⟨hshape, h⟩ := of_refuseIf h
    obtain ⟨hnormal, h⟩ := of_refuseIf h
    obtain ⟨_, _, h⟩ := bind_eq_ok h
    obtain ⟨_, _, h⟩ := bind_eq_ok h
    cases h
    obtain rfl : kind = .account := by simpa [lastKind, pushed] using hkind
    have hname : (before.pushed .account value).name = value := by simp [name, pushed]
    have hparent : before.lastKind = none ∨ before.lastKind = some .usage :=
      or_iff_not_imp_left.mpr (by simpa [Kind.mayFollow] using hshape)
    rcases hparent with hnone | husage
    · have hempty : before.segments = [] := by simpa [lastKind] using hnone
      simp [get, pushed, hempty] at hget
    · rw [hname]
      simpa [husage] using hnormal

/-! ### The names -/

theorem service_inj {f g : Text} (hf : f ≠ githubRecordService) (hg : g ≠ githubRecordService)
    (h : service f = service g) : f = g := by
  unfold service at h
  split at h <;> split at h
  case isTrue.isTrue hf' hg' => exact hf'.trans hg'.symm
  case isTrue.isFalse => exact absurd h.symm hg
  case isFalse.isTrue => exact absurd h hf
  case isFalse.isFalse => exact h

theorem hexText_injective : Function.Injective hexText := fun _ _ h =>
  utf8Bytes_injective (hex_injective (String.toList_injective h))

theorem dash_not_mem_hexText (value : Text) : '-' ∉ hexText value := by
  have hdigit : ∀ n < 16, hexDigit n ≠ '-' := by decide
  intro h
  rw [hexText, hex, String.toList_ofList, List.mem_flatMap] at h
  obtain ⟨byte, -, hbyte⟩ := h
  have hlt := byte.toNat_lt
  simp only [hexByte, List.mem_cons, List.not_mem_nil, or_false] at hbyte
  rcases hbyte with h | h <;> exact hdigit _ (by omega) h.symm

/-- The part before a separator that neither side holds. -/
theorem append_cons_inj {sep : Char} {u v u' v' : Text} (hu : sep ∉ u) (hu' : sep ∉ u')
    (h : u ++ sep :: v = u' ++ sep :: v') : u = u' ∧ v = v' := by
  have hsplit := (splitOnce_append v hu).symm.trans
    ((congrArg (splitOnce sep) h).trans (splitOnce_append v' hu'))
  exact Prod.mk.inj (Option.some.inj hsplit)

theorem forgeRecordName_eq_iff {tag : Text} (ha : a.Grown lower) (hb : b.Grown lower)
    (hx : a.forgeRecordName tag = some x) (hy : b.forgeRecordName tag = some y) :
    x = y ↔ a.get .forge = b.get .forge ∧ a.get .repo = b.get .repo ∧ a.number = b.number := by
  simp only [forgeRecordName, Option.bind_eq_bind, Option.bind_eq_some_iff, Option.pure_def,
    Option.some.injEq] at hx hy
  obtain ⟨f, hf, r, hr, n, hn, rfl⟩ := hx
  obtain ⟨f', hf', r', hr', n', hn', rfl⟩ := hy
  rw [hf, hf', hr, hr', hn, hn', Option.some.injEq, Option.some.injEq, Option.some.injEq]
  constructor
  · intro h
    obtain ⟨hforge, h⟩ := append_cons_inj (dash_not_mem_hexText _) (dash_not_mem_hexText _)
      (List.cons.inj (List.append_cancel_left h)).2
    obtain ⟨hrepo, h⟩ := append_cons_inj (dash_not_mem_hexText _) (dash_not_mem_hexText _) h
    exact ⟨service_inj (ha.forge_ne_service hf) (hb.forge_ne_service hf')
      (hexText_injective hforge), hexText_injective hrepo,
      Nat.repr_injective (String.toList_injective h)⟩
  · rintro ⟨rfl, rfl, rfl⟩
    rfl

theorem hashedArtifact_eq_iff {p q : List UInt8} (hka : a.lastKind = some .artifact)
    (hkb : b.lastKind = some .artifact) (ha : a.Fits) (hb : b.Fits)
    (hp : a.hashedInput lower = some p) (hq : b.hashedInput lower = some q) :
    p = q ↔ a.get .convoy = b.get .convoy ∧ a.get .role = b.get .role ∧ a.name = b.name ∧
      a.of = b.of := by
  simp only [hashedInput, hka, hkb, Option.bind_eq_bind, Option.bind_eq_some_iff, Option.pure_def,
    Option.some.injEq] at hp hq
  obtain ⟨c, hc, r, hr, o, ho, rfl⟩ := hp
  obtain ⟨c', hc', r', hr', o', ho', rfl⟩ := hq
  rw [hc, hc', hr, hr', ho, ho', Option.some.injEq, Option.some.injEq, Option.some.injEq]
  constructor
  · intro h
    have hparts := flatMap_frame_inj utf8Bytes_injective
      (by simpa using ⟨ha.1 _ (mem_of_get hc), ha.1 _ (mem_of_get hr), ha.1 _ (name_mem hka),
        ha.2 o ho⟩)
      (by simpa using ⟨hb.1 _ (mem_of_get hc'), hb.1 _ (mem_of_get hr'), hb.1 _ (name_mem hkb),
        hb.2 o' ho'⟩) h
    simpa using hparts
  · rintro ⟨rfl, rfl, hname, rfl⟩
    rw [hname]

/-- Texts around a separator that they may hold. -/
theorem append_cons_eq_iff {sep : Char} {u v u' v' : Text} :
    u ++ sep :: v = u' ++ sep :: v' ↔ (u = u' ∧ v = v') ∨
      (∃ w, u = u' ++ sep :: w ∧ v' = w ++ sep :: v) ∨
      ∃ w, u' = u ++ sep :: w ∧ v = w ++ sep :: v' := by
  constructor
  · intro h
    rcases List.append_eq_append_iff.mp h with ⟨_ | ⟨c, w⟩, rfl, hv⟩ | ⟨_ | ⟨c, w⟩, rfl, hv⟩
    · exact .inl ⟨(List.append_nil u).symm, (List.cons.inj hv).2⟩
    · cases hv
      exact .inr (.inr ⟨w, rfl, rfl⟩)
    · exact .inl ⟨List.append_nil u', (List.cons.inj hv).2.symm⟩
    · cases hv
      exact .inr (.inl ⟨w, rfl, rfl⟩)
  · rintro (⟨rfl, rfl⟩ | ⟨w, rfl, rfl⟩ | ⟨w, rfl, rfl⟩) <;> simp

theorem hashedAccount_eq_iff {p q : List UInt8} (hka : a.lastKind = some .account)
    (hkb : b.lastKind = some .account) (ha : a.Grown lower) (hb : b.Grown lower)
    (hp : a.hashedInput lower = some p) (hq : b.hashedInput lower = some q) :
    p = q ↔ (a.get .usage = b.get .usage ∧ a.name = b.name) ∨ a.Shifts b ∨ b.Shifts a := by
  simp only [hashedInput, hka, hkb, Option.bind_eq_bind, Option.bind_eq_some_iff, Option.pure_def,
    Option.some.injEq] at hp hq
  obtain ⟨u, hu, rfl⟩ := hp
  obtain ⟨u', hu', rfl⟩ := hq
  rw [ha.normal_provider hu, ha.normal_account hka hu, hb.normal_provider hu',
    hb.normal_account hkb hu', List.append_cancel_left_eq, List.cons_inj_right]
  have hjoined : ∀ v w, utf8Bytes v ++ 0 :: utf8Bytes w = utf8Bytes (v ++ '\x00' :: w) :=
    fun v w => (utf8Bytes_append v ('\x00' :: w)).symm
  rw [hjoined, hjoined, utf8Bytes_injective.eq_iff, append_cons_eq_iff]
  simp [Shifts, hka, hkb, hu, hu']

/-- The kinds whose record names are made from several parts. -/
def recordKinds : List (Option Kind) :=
  [some .changeRequest, some .issue, some .artifact, some .account]

/-- The word a name of the kind starts with. -/
def tag : Option Kind → Text
  | some .changeRequest => "cr".toList
  | some .issue => "issue".toList
  | some .artifact => "artifact".toList
  | _ => "usage".toList

theorem recordName_tag (hk : a.lastKind ∈ recordKinds)
    (hx : a.recordName lower sha256 = some x) : ∃ rest, x = tag a.lastKind ++ '-' :: rest := by
  have hforge : ∀ word, a.forgeRecordName word = some x → ∃ rest, x = word ++ '-' :: rest := by
    intro word h
    simp only [forgeRecordName, Option.bind_eq_bind, Option.bind_eq_some_iff, Option.pure_def,
      Option.some.injEq] at h
    obtain ⟨_, -, _, -, _, -, rfl⟩ := h
    exact ⟨_, rfl⟩
  simp only [recordKinds, List.mem_cons, List.not_mem_nil, or_false] at hk
  rcases hk with h | h | h | h <;> simp only [recordName, h] at hx <;> rw [h]
  · exact hforge _ hx
  · exact hforge _ hx
  · obtain ⟨_, -, rfl⟩ := Option.map_eq_some_iff.mp hx
    exact ⟨_, rfl⟩
  · obtain ⟨_, -, rfl⟩ := Option.map_eq_some_iff.mp hx
    exact ⟨_, rfl⟩

/-- Names of different kinds start with different words. -/
theorem lastKind_eq_of_tag {k k' : Option Kind} (hk : k ∈ recordKinds) (hk' : k' ∈ recordKinds)
    {rest rest' : Text} (h : tag k ++ '-' :: rest = tag k' ++ '-' :: rest') : k = k' := by
  have hdash : ∀ k ∈ recordKinds, '-' ∉ tag k := by decide
  have htag : ∀ k ∈ recordKinds, ∀ k' ∈ recordKinds, tag k = tag k' → k = k' := by decide
  exact htag k hk k' hk' (append_cons_inj (hdash k hk) (hdash k' hk') h).1

theorem Shifts.not_sameParts (h : a.Shifts b) : ¬ a.SameParts b ∧ ¬ b.SameParts a := by
  obtain ⟨hka, hkb, provider, rest, ha, hb, -⟩ := h
  constructor <;> simp [SameParts, hka, hkb, ha, hb]

/-- **Record names are equal exactly for the same parts**, for all addresses but two accounts whose
separator a NUL stands in for. -/
theorem recordName_eq_iff (ha : a.Built lower true) (hb : b.Built lower true)
    (hka : a.lastKind ∈ recordKinds) (hkb : b.lastKind ∈ recordKinds) (hfa : a.Fits) (hfb : b.Fits)
    (hsha : ∀ p ∈ a.hashedInput lower, ∀ q ∈ b.hashedInput lower,
      (sha256 p).take 54 = (sha256 q).take 54 → p = q)
    (hx : a.recordName lower sha256 = some x) (hy : b.recordName lower sha256 = some y) :
    (x = y ↔ a.SameParts b) ↔ ¬ a.Shifts b ∧ ¬ b.Shifts a := by
  -- The names are equal exactly for the same parts or a shifted separator.
  have hnames : x = y ↔ a.SameParts b ∨ a.Shifts b ∨ b.Shifts a := by
    by_cases hkind : a.lastKind = b.lastKind
    · have hk := hka
      simp only [recordKinds, List.mem_cons, List.not_mem_nil, or_false] at hk
      rcases hk with h | h | h | h
      all_goals
        have h' := hkind.symm.trans h
        simp only [recordName, h, h'] at hx hy
      · simp [SameParts, Shifts, h, h', forgeRecordName_eq_iff ha.grown.1 hb.grown.1 hx hy]
      · simp [SameParts, Shifts, h, h', forgeRecordName_eq_iff ha.grown.1 hb.grown.1 hx hy]
      · obtain ⟨p, hp, rfl⟩ := Option.map_eq_some_iff.mp hx
        obtain ⟨q, hq, rfl⟩ := Option.map_eq_some_iff.mp hy
        have hinput : sha256 p = sha256 q ↔ p = q :=
          ⟨fun h => hsha p hp q hq (by rw [h]), congrArg sha256⟩
        rw [List.append_cancel_left_eq, List.cons_inj_right, hinput,
          hashedArtifact_eq_iff h h' hfa hfb hp hq]
        simp [SameParts, Shifts, h, h']
      · obtain ⟨p, hp, rfl⟩ := Option.map_eq_some_iff.mp hx
        obtain ⟨q, hq, rfl⟩ := Option.map_eq_some_iff.mp hy
        have hinput : (sha256 p).take 54 = (sha256 q).take 54 ↔ p = q :=
          ⟨hsha p hp q hq, fun h => by rw [h]⟩
        rw [List.append_cancel_left_eq, List.cons_inj_right, hinput,
          hashedAccount_eq_iff h h' ha.grown.1 hb.grown.1 hp hq]
        simp [SameParts, h, h']
    · obtain ⟨_, rfl⟩ := recordName_tag hka hx
      obtain ⟨_, rfl⟩ := recordName_tag hkb hy
      refine iff_of_false (fun h => hkind (lastKind_eq_of_tag hka hkb h)) ?_
      rintro (h | h | h)
      · exact hkind h.1
      · exact hkind (h.1.trans h.2.1.symm)
      · exact hkind (h.2.1.trans h.1.symm)
  have hab := fun h : a.Shifts b => h.not_sameParts.1
  have hba := fun h : b.Shifts a => h.not_sameParts.2
  tauto

/-- The account of a provider, as it is built. -/
def account (provider account : Text) : Except Error Address := do
  let usage ← root toAsciiLowercase .usage provider
  child toAsciiLowercase usage .account account

theorem built_account {provider name : Text} (h : account provider name = .ok a) :
    a.Built toAsciiLowercase true := by
  obtain ⟨_, husage, haccount⟩ := bind_eq_ok h
  exact .child (.root husage) haccount

/-- Two accounts of one provider. -/
theorem recordName_accounts : ∃ a b x y, account ['p'] ['a'] = .ok a ∧ account ['p'] ['b'] = .ok b ∧
    a.recordName toAsciiLowercase (·.map fun byte => Char.ofNat byte.toNat) = some x ∧
    b.recordName toAsciiLowercase (·.map fun byte => Char.ofNat byte.toNat) = some y ∧
    ((x = y ↔ a.SameParts b) ↔ ¬ a.Shifts b ∧ ¬ b.Shifts a) := by
  have ha : account ['p'] ['a'] = .ok _ := rfl
  have hb : account ['p'] ['b'] = .ok _ := rfl
  refine ⟨_, _, _, _, ha, hb, rfl, rfl, recordName_eq_iff (built_account ha) (built_account hb)
    (by decide) (by decide) ?_ ?_ ?_ rfl rfl⟩
  · unfold Fits Framable
    decide
  · unfold Fits Framable
    decide
  · rintro _ ⟨⟩ _ ⟨⟩
    decide +kernel

/-- A NUL inside the provider of one account stands for the separator of the other. -/
theorem shifted_accounts_share_name : ∃ a b, account ['p', '\x00', 'q'] ['a'] = .ok a ∧
    account ['p'] ['q', '\x00', 'a'] = .ok b ∧ ¬ a.SameParts b ∧
    ∀ sha256, a.recordName toAsciiLowercase sha256 = b.recordName toAsciiLowercase sha256 := by
  refine ⟨_, _, rfl, rfl, ?_, fun _ => rfl⟩
  rintro ⟨-, hprovider, -⟩
  exact absurd hprovider (by decide)

end Address

end Flotilla.Addressing
