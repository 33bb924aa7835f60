import Flotilla.Definition.Resolver

/-!
# Two definition kinds

The general results hold for every `DefinitionKind`.  The fixed inputs beside
them use two kinds of the program, with JSON values cut down to booleans and
strings: `fleetDesignation`, a plain struct with optional fields that serialise
as absent, and `imageLayer`, whose spec is one of two shapes.
-/

namespace Flotilla.Definition

open Lib Std

inductive Json where
  | bool (b : Bool)
  | str (s : String)
  deriving DecidableEq, Repr

def Json.asBool : Json → Option Bool
  | .bool b => some b
  | .str _ => none

/-- The printed value; strings are quoted but not escaped. -/
def Json.text : Json → String
  | .bool true => "true"
  | .bool false => "false"
  | .str s => "\"" ++ s ++ "\""

theorem Json.text_injective : Function.Injective Json.text := by
  have hquoted : ∀ s t, "\"" ++ s ++ "\"" = "\"" ++ t ++ "\"" → s = t := by
    intro s t h
    have hlist := congrArg String.toList h
    simp only [String.toList_append] at hlist
    exact String.toList_inj.mp (List.append_cancel_right (List.append_cancel_left
      (by simpa only [List.append_assoc] using hlist)))
  have hword : ∀ b s, Json.text (.bool b) ≠ Json.text (.str s) := by
    intro b s h
    have hlist := congrArg String.toList h
    cases b <;> simp [Json.text] at hlist
  intro v w h
  cases v with
  | bool b =>
    cases w with
    | bool b' => cases b <;> cases b' <;> first | rfl | exact absurd h (by decide)
    | str t => exact absurd h (hword b t)
  | str s =>
    cases w with
    | bool b => exact absurd h.symm (hword b s)
    | str t => exact congrArg Json.str (hquoted s t h)

instance : JsonValue Json where
  ofBool := .bool
  asBool := Json.asBool
  text := Json.text
  asBool_ofBool := fun _ => rfl
  text_injective := Json.text_injective

/-! ### FleetDesignation -/

/-- The binding of the image cache is kept as its value. -/
structure FleetDesignationSpec where
  fleet : Option String := none
  project : String
  imageCache : Option Json := none
  deriving DecidableEq

/-- `#[serde(skip_serializing_if = "Option::is_none")]`. -/
def insertSome (fields : BTreeMap String Json) (field : String) : Option Json → BTreeMap String Json
  | some v => fields.insert field v
  | none => fields

def FleetDesignationSpec.encode (spec : FleetDesignationSpec) : BTreeMap String Json :=
  insertSome (insertSome ((∅ : BTreeMap String Json).insert "project" (.str spec.project))
    "fleet" (spec.fleet.map .str)) "image_cache" spec.imageCache

def missingField (field : String) : String := "missing field \x60" ++ field ++ "\x60"

def invalidType (v : Json) (expected : String) : String :=
  match v with
  | .bool b => "invalid type: boolean \x60" ++ toString b ++ "\x60, expected " ++ expected
  | .str s => "invalid type: string \"" ++ s ++ "\", expected " ++ expected

def FleetDesignationSpec.decode (fields : BTreeMap String Json) :
    Except String FleetDesignationSpec :=
  match fields["project"]?, fields["fleet"]? with
  | _, some (.bool b) => .error (invalidType (.bool b) "a string")
  | none, _ => .error (missingField "project")
  | some (.bool b), _ => .error (invalidType (.bool b) "a string")
  | some (.str project), none => .ok ⟨none, project, fields["image_cache"]?⟩
  | some (.str project), some (.str fleet) => .ok ⟨some fleet, project, fields["image_cache"]?⟩

theorem lookup_insertSome (fields : BTreeMap String Json) (field k : String) (v : Option Json) :
    (insertSome fields field v)[k]? = if field = k then v.or fields[k]? else fields[k]? := by
  cases v with
  | none => simp [insertSome]
  | some v => simp [insertSome, ExtTreeMap.getElem?_insert]

theorem FleetDesignationSpec.lookup_encode (spec : FleetDesignationSpec) :
    spec.encode["project"]? = some (.str spec.project) ∧
      spec.encode["fleet"]? = spec.fleet.map .str ∧
      spec.encode["image_cache"]? = spec.imageCache ∧
      ∀ k : String, k ≠ "project" → k ≠ "fleet" → k ≠ "image_cache" → spec.encode[k]? = none := by
  simp only [FleetDesignationSpec.encode, lookup_insertSome, ExtTreeMap.getElem?_insert,
    Std.compare_eq_iff_eq]
  refine ⟨by simp, by simp, by simp, ?_⟩
  intro k hproject hfleet hcache
  simp [hproject.symm, hfleet.symm, hcache.symm]

variable {fields : BTreeMap String Json} {parts : List (BTreeMap String Json)}

theorem FleetDesignationSpec.encode_decode {spec : FleetDesignationSpec}
    (hparts : ∀ part ∈ parts, ∃ s, FleetDesignationSpec.encode s = part)
    (hmix : Mixture parts fields) (h : FleetDesignationSpec.decode fields = .ok spec) :
    spec.encode = fields := by
  have hother : ∀ k, k ≠ "project" → k ≠ "fleet" → k ≠ "image_cache" →
      fields[k]? = none := by
    intro k hproject hfleet hcache
    cases hk : fields[k]? with
    | none => rfl
    | some v =>
      obtain ⟨part, hpart, hvalue⟩ := hmix.value k v hk
      obtain ⟨s, rfl⟩ := hparts part hpart
      rw [(FleetDesignationSpec.lookup_encode s).2.2.2 k hproject hfleet hcache] at hvalue
      cases hvalue
  obtain ⟨hproject, hfleet, hcache, hnone⟩ := FleetDesignationSpec.lookup_encode spec
  have hdecode : fields["project"]? = some (.str spec.project) ∧
      fields["fleet"]? = spec.fleet.map .str ∧ fields["image_cache"]? = spec.imageCache := by
    unfold FleetDesignationSpec.decode at h
    split at h
    · cases h
    · cases h
    · cases h
    · rename_i hp hf
      cases h
      exact ⟨hp, hf, rfl⟩
    · rename_i hp hf
      cases h
      exact ⟨hp, hf, rfl⟩
  apply ExtTreeMap.ext_getElem?
  intro k
  by_cases h1 : k = "project"
  · rw [h1, hproject, hdecode.1]
  by_cases h2 : k = "fleet"
  · rw [h2, hfleet, hdecode.2.1]
  by_cases h3 : k = "image_cache"
  · rw [h3, hcache, hdecode.2.2]
  rw [hnone k h1 h2 h3, hother k h1 h2 h3]

def fleetDesignation : DefinitionKind Json FleetDesignationSpec where
  kind := "FleetDesignation"
  toObject spec := .ok (some spec.encode)
  fromObject := FleetDesignationSpec.decode
  encode_mixture parts fields spec hparts hmix hdecode := by
    have hencode : spec.encode = fields :=
      FleetDesignationSpec.encode_decode (fun part hpart => by
        obtain ⟨s, hs⟩ := hparts part hpart
        exact ⟨s, Option.some.inj (Except.ok.inj hs)⟩) hmix hdecode
    rw [hencode]

/-! ### ImageLayer -/

inductive ImageLayerTier where
  | base
  | shared
  | project
  | agentRuntime
  deriving DecidableEq

def ImageLayerTier.asStr : ImageLayerTier → String
  | .base => "base"
  | .shared => "shared"
  | .project => "project"
  | .agentRuntime => "agent_runtime"

inductive ImageLayerSource where
  | stdlib
  | installation
  | project
  deriving DecidableEq

def ImageLayerSource.asStr : ImageLayerSource → String
  | .stdlib => "stdlib"
  | .installation => "installation"
  | .project => "project"

/-- A layer whose collections are empty, so that they serialise as absent. -/
structure ImageLayerSpec where
  name : String
  version : String
  tier : ImageLayerTier
  source : ImageLayerSource
  project : Option String := none
  fromImage : Option String := none
  fragment : String
  probe : String
  deriving DecidableEq

inductive ImageLayerResourceSpec where
  | current (spec : ImageLayerSpec)
  | retired
  deriving DecidableEq

def ImageLayerSpec.encode (spec : ImageLayerSpec) : BTreeMap String Json :=
  [("name", some (.str spec.name)), ("version", some (.str spec.version)),
    ("tier", some (.str spec.tier.asStr)), ("source", some (.str spec.source.asStr)),
    ("project", spec.project.map Json.str), ("from", spec.fromImage.map Json.str),
    ("fragment", some (.str spec.fragment)), ("probe", some (.str spec.probe))].foldl
    (fun fields entry => insertSome fields entry.1 entry.2) ∅

def ImageLayerResourceSpec.encode : ImageLayerResourceSpec → BTreeMap String Json
  | .current spec => spec.encode
  | .retired => (∅ : BTreeMap String Json).insert "retired" (.bool true)

def imageLayerFields : List String :=
  ["name", "version", "tier", "source", "project", "from", "fragment", "pins", "provides",
    "requires", "probe", "context_files", "build_secrets"]

def retiredRecordFields : List String :=
  ["stage", "parent", "repository", "revision", "fragment", "args", "pins", "provides", "requires",
    "probes", "input_stability"]

def oneOf (expected : List String) : String :=
  "expected one of " ++ ", ".intercalate (expected.map fun e => "\x60" ++ e ++ "\x60")

/-- `#[serde(deny_unknown_fields)]`. -/
def unknownField (field : String) (expected : List String) : String :=
  "unknown field \x60" ++ field ++ "\x60, " ++ oneOf expected

def unknownVariant (variant : String) (expected : List String) : String :=
  "unknown variant \x60" ++ variant ++ "\x60, " ++ oneOf expected

-- A collection is a map or a sequence, so no boolean or string decodes as one.
def ImageLayerSpec.checkEntry (entry : String × Json) : Except String Unit :=
  if entry.1 ∉ imageLayerFields then .error (unknownField entry.1 imageLayerFields)
  else if entry.1 ∈ ["pins", "context_files"] then .error (invalidType entry.2 "a map")
  else if entry.1 ∈ ["provides", "requires", "build_secrets"] then
    .error (invalidType entry.2 "a sequence")
  else match entry.2 with
    | .bool b => .error (invalidType (.bool b) "a string")
    | .str _ => .ok ()

def required (fields : BTreeMap String Json) (field : String) : Except String String :=
  match fields[field]? with
  | some (.str s) => .ok s
  | _ => .error (missingField field)

def optional (fields : BTreeMap String Json) (field : String) : Except String (Option String) :=
  match fields[field]? with
  | some (.str s) => .ok (some s)
  | some (.bool b) => .error (invalidType (.bool b) "a string")
  | none => .ok none

/-- The variant with the given name. -/
def decodeVariant {A : Type} (variants : List A) (asStr : A → String) (s : String) :
    Except String A :=
  match variants.find? (asStr · = s) with
  | some variant => .ok variant
  | none => .error (unknownVariant s (variants.map asStr))

def ImageLayerTier.decode (s : String) : Except String ImageLayerTier :=
  decodeVariant [.base, .shared, .project, .agentRuntime] ImageLayerTier.asStr s

def ImageLayerSource.decode (s : String) : Except String ImageLayerSource :=
  decodeVariant [.stdlib, .installation, .project] ImageLayerSource.asStr s

def ImageLayerSpec.decode (fields : BTreeMap String Json) : Except String ImageLayerSpec := do
  let _ ← fields.toList.mapM ImageLayerSpec.checkEntry
  let name ← required fields "name"
  let version ← required fields "version"
  let tier ← required fields "tier" >>= ImageLayerTier.decode
  let source ← required fields "source" >>= ImageLayerSource.decode
  let project ← optional fields "project"
  let fromImage ← optional fields "from"
  let fragment ← required fields "fragment"
  let probe ← required fields "probe"
  return { name, version, tier, source, project, fromImage, fragment, probe }

def checkRetired (entry : String × Json) : Except String Unit :=
  if entry.1 ∈ retiredRecordFields then .ok ()
  else .error (unknownField entry.1 retiredRecordFields)

def checkMarker (entry : String × Json) : Except String Unit :=
  if entry.1 ≠ "retired" then
    .error ("unknown field \x60" ++ entry.1 ++ "\x60, expected \x60retired\x60")
  else match entry.2 with
    | .bool _ => .ok ()
    | .str s => .error (invalidType (.str s) "a boolean")

/-- The shape is told by `tier`, then `stage`, then `retired`. -/
def ImageLayerResourceSpec.decode (fields : BTreeMap String Json) :
    Except String ImageLayerResourceSpec :=
  if fields.contains "tier" then (ImageLayerSpec.decode fields).map .current
  else if fields.contains "stage" then
    (fields.toList.mapM checkRetired).map fun _ => .retired
  else if fields.contains "retired" then
    (fields.toList.mapM checkMarker).map fun _ => .retired
  else .error "image layer spec needs \x60tier\x60 (ADR 0062 definition)"

theorem decodeVariant_eq_ok {A : Type} {variants : List A} {asStr : A → String} {s : String}
    {variant : A} (h : decodeVariant variants asStr s = .ok variant) : asStr variant = s := by
  unfold decodeVariant at h
  cases hfind : variants.find? (asStr · = s) with
  | none => rw [hfind] at h; cases h
  | some found =>
    rw [hfind] at h
    cases h
    exact (of_find? hfind).2

theorem required_eq_ok {field s : String} (h : required fields field = .ok s) :
    fields[field]? = some (.str s) := by
  unfold required at h
  split at h
  · rename_i hs
    cases h
    exact hs
  · cases h

theorem optional_eq_ok {field : String} {o : Option String} (h : optional fields field = .ok o) :
    fields[field]? = o.map .str := by
  unfold optional at h
  split at h
  · rename_i hs
    cases h
    exact hs
  · cases h
  · rename_i hs
    cases h
    exact hs

/-- The fields a layer's strings are in. -/
def imageLayerStrings : List String :=
  ["name", "version", "tier", "source", "project", "from", "fragment", "probe"]

theorem mem_of_checkEntry {entry : String × Json}
    (h : ImageLayerSpec.checkEntry entry = .ok ()) : entry.1 ∈ imageLayerStrings := by
  unfold ImageLayerSpec.checkEntry at h
  split at h
  · cases h
  · rename_i hknown
    split at h
    · cases h
    · split at h
      · cases h
      · simp only [imageLayerFields, imageLayerStrings, List.mem_cons, List.not_mem_nil] at *
        tauto

theorem ImageLayerSpec.lookup_encode (spec : ImageLayerSpec) (k : String) :
    spec.encode[k]? =
      if k = "name" then some (.str spec.name)
      else if k = "version" then some (.str spec.version)
      else if k = "tier" then some (.str spec.tier.asStr)
      else if k = "source" then some (.str spec.source.asStr)
      else if k = "project" then spec.project.map .str
      else if k = "from" then spec.fromImage.map .str
      else if k = "fragment" then some (.str spec.fragment)
      else if k = "probe" then some (.str spec.probe)
      else none := by
  simp only [ImageLayerSpec.encode, List.foldl_cons, List.foldl_nil, lookup_insertSome,
    ExtTreeMap.getElem?_empty]
  by_cases hk : k ∈ imageLayerStrings <;>
    simp only [imageLayerStrings, List.mem_cons, List.not_mem_nil, or_false, not_or] at hk
  · rcases hk with rfl | rfl | rfl | rfl | rfl | rfl | rfl | rfl <;> simp
  · simp only [@eq_comm _ k] at hk ⊢
    simp [hk]

/-- What decodes as a current layer encodes to the same object. -/
theorem ImageLayerSpec.encode_decode {spec : ImageLayerSpec}
    (h : ImageLayerSpec.decode fields = .ok spec) : spec.encode = fields := by
  obtain ⟨checked, hchecked, h⟩ := bind_eq_ok h
  obtain ⟨name, hname, h⟩ := bind_eq_ok h
  obtain ⟨version, hversion, h⟩ := bind_eq_ok h
  obtain ⟨tier, htier, h⟩ := bind_eq_ok h
  obtain ⟨source, hsource, h⟩ := bind_eq_ok h
  obtain ⟨project, hproject, h⟩ := bind_eq_ok h
  obtain ⟨fromImage, hfrom, h⟩ := bind_eq_ok h
  obtain ⟨fragment, hfragment, h⟩ := bind_eq_ok h
  obtain ⟨probe, hprobe, h⟩ := bind_eq_ok h
  cases h
  obtain ⟨tierText, htierText, htier⟩ := bind_eq_ok htier
  obtain ⟨sourceText, hsourceText, hsource⟩ := bind_eq_ok hsource
  apply ExtTreeMap.ext_getElem?
  intro k
  rw [ImageLayerSpec.lookup_encode]
  by_cases hk : k ∈ imageLayerStrings
  · simp only [imageLayerStrings, List.mem_cons, List.not_mem_nil, or_false] at hk
    rcases hk with rfl | rfl | rfl | rfl | rfl | rfl | rfl | rfl
    · rw [required_eq_ok hname]; simp
    · rw [required_eq_ok hversion]; simp
    · rw [required_eq_ok htierText, ← decodeVariant_eq_ok htier]; simp
    · rw [required_eq_ok hsourceText, ← decodeVariant_eq_ok hsource]; simp
    · rw [optional_eq_ok hproject]; simp
    · rw [optional_eq_ok hfrom]; simp
    · rw [required_eq_ok hfragment]; simp
    · rw [required_eq_ok hprobe]; simp
  · have hnone : fields[k]? = none := by
      cases hlookup : fields[k]? with
      | none => rfl
      | some v =>
        obtain ⟨_, hentry⟩ := mapM_eq_ok hchecked (k, v)
          (ExtTreeMap.mem_toList_iff_getElem?_eq_some.mpr hlookup)
        exact absurd (mem_of_checkEntry hentry) hk
    rw [hnone]
    simp only [imageLayerStrings, List.mem_cons, List.not_mem_nil, or_false, not_or] at hk
    simp [hk]

theorem ImageLayerResourceSpec.lookup_encode_stage (spec : ImageLayerResourceSpec) :
    spec.encode["stage"]? = none := by
  cases spec with
  | current spec => rw [ImageLayerResourceSpec.encode, ImageLayerSpec.lookup_encode]; simp
  | retired => simp [ImageLayerResourceSpec.encode]

variable {spec : ImageLayerResourceSpec}

theorem ImageLayerResourceSpec.lookup_encode_retired {v : Json}
    (h : spec.encode["retired"]? = some v) : v = .bool true := by
  cases spec with
  | current spec =>
    rw [ImageLayerResourceSpec.encode, ImageLayerSpec.lookup_encode] at h
    simp at h
  | retired =>
    exact (Option.some.inj h).symm

theorem ImageLayerResourceSpec.encode_decode
    (hparts : ∀ part ∈ parts, ∃ s, ImageLayerResourceSpec.encode s = part)
    (hmix : Mixture parts fields) (h : ImageLayerResourceSpec.decode fields = .ok spec) :
    spec.encode = fields := by
  unfold ImageLayerResourceSpec.decode at h
  by_cases htier : fields.contains "tier" = true
  · rw [if_pos htier] at h
    cases hdecode : ImageLayerSpec.decode fields with
    | error e => rw [hdecode] at h; cases h
    | ok current =>
      rw [hdecode] at h
      cases h
      exact ImageLayerSpec.encode_decode hdecode
  · rw [if_neg htier] at h
    by_cases hstage : fields.contains "stage" = true
    · obtain ⟨part, hpart, hmem⟩ :=
        (hmix.mem_iff "stage").mp (ExtTreeMap.contains_iff_mem.mp hstage)
      obtain ⟨s, rfl⟩ := hparts part hpart
      rw [ExtTreeMap.mem_iff_isSome_getElem?, s.lookup_encode_stage] at hmem
      cases hmem
    · rw [if_neg hstage] at h
      by_cases hretired : fields.contains "retired" = true
      · rw [if_pos hretired] at h
        cases hchecked : fields.toList.mapM checkMarker with
        | error e => rw [hchecked] at h; cases h
        | ok checked =>
          rw [hchecked] at h
          cases h
          have hkey : ∀ k v, fields[k]? = some v → k = "retired" := by
            intro k v hv
            obtain ⟨_, hentry⟩ := mapM_eq_ok hchecked (k, v)
              (ExtTreeMap.mem_toList_iff_getElem?_eq_some.mpr hv)
            by_contra hne
            rw [checkMarker, if_pos hne] at hentry
            cases hentry
          rw [ExtTreeMap.contains_iff_mem, ExtTreeMap.mem_iff_isSome_getElem?,
            Option.isSome_iff_exists] at hretired
          obtain ⟨v, hv⟩ := hretired
          obtain ⟨part, hpart, hvalue⟩ := hmix.value "retired" v hv
          obtain ⟨s, rfl⟩ := hparts part hpart
          obtain rfl := ImageLayerResourceSpec.lookup_encode_retired hvalue
          apply ExtTreeMap.ext_getElem?
          intro k
          by_cases hk : k = "retired"
          · subst hk
            rw [hv, ImageLayerResourceSpec.encode, ExtTreeMap.getElem?_insert_self]
          · have hnone : fields[k]? = none := by
              cases hlookup : fields[k]? with
              | none => rfl
              | some w => exact absurd (hkey k w hlookup) hk
            rw [hnone, ImageLayerResourceSpec.encode, ExtTreeMap.getElem?_insert,
              if_neg (by simpa using Ne.symm hk), ExtTreeMap.getElem?_empty]
      · rw [if_neg hretired] at h
        cases h

def imageLayer : DefinitionKind Json ImageLayerResourceSpec where
  kind := "ImageLayer"
  toObject spec := .ok (some spec.encode)
  fromObject := ImageLayerResourceSpec.decode
  encode_mixture parts fields spec hparts hmix hdecode := by
    have hencode : spec.encode = fields :=
      ImageLayerResourceSpec.encode_decode (fun part hpart => by
        obtain ⟨s, hs⟩ := hparts part hpart
        exact ⟨s, Option.some.inj (Except.ok.inj hs)⟩) hmix hdecode
    rw [hencode]

/-- The part of a stored definition that the indexes of the two kinds read. -/
def indexedTree {V S T : Type} (kind : String) (o : ResourceObject V S T) : Lib.Json :=
  .object [("kind", .string kind), ("metadata", .object [("name", .string o.metadata.name)])]

def definitionSchema : Query.Schema where
  kinds := [⟨"FleetDesignation", ["metadata.name"], .definitions⟩,
    ⟨"ImageLayer", ["metadata.name"], .definitions⟩]
  decoders := ⟨fun _ => none, fun _ => none, fun _ => none⟩
  distinct := by decide

/-- The resolver of the kind at any root; every record of it below is admissible. -/
def imageLayerResolver (root : NodeId) : Resolver Json ImageLayerResourceSpec Unit where
  K := imageLayer
  localRoot := root
  ns := "flotilla"
  eventRetention := { maxEventsPerResourceStream := 1024, pos := by decide }
  generation := none
  overflowChecks := false
  builtin := fun _ => none
  validateNamespace := false
  initialStatus := fun _ => .ok none
  validateSpec := fun _ _ => .ok ()
  validateSpecUpdate := fun _ _ => .ok ()
  validateSpecWithNamedSiblings := fun _ _ _ => .ok ()
  tree := indexedTree "ImageLayer"
  schema := definitionSchema
  sha256 := fun bytes => Vector.replicate 32 (UInt8.ofNat bytes.length)
  admitApply := fun _ _ _ => .ok ()
  admitDelete := fun _ _ => .ok ()

/-! ### FleetDesignation at a root -/

def fleetDesignationName : String := "fleet"

/-- `FleetDesignation::validate_spec`, for a spec without an image cache. -/
def FleetDesignationSpec.validateSpec (input : InputMeta) (spec : FleetDesignationSpec) :
    Except ResourceError Unit :=
  if input.name ≠ fleetDesignationName ∨ spec.project.toList.all Char.isWhitespace then
    .error (.invalid "FleetDesignation must be named fleet and have a nonempty Project name")
  else .ok ()

/-- The resolver of the kind at `root`, where the Projects `declared` have no parent. -/
def fleetResolver (root : NodeId) (declared : List String) :
    Resolver Json FleetDesignationSpec Unit where
  K := fleetDesignation
  localRoot := root
  ns := "flotilla"
  eventRetention := { maxEventsPerResourceStream := 1024, pos := by decide }
  generation := none
  overflowChecks := false
  builtin := fun _ => none
  validateNamespace := false
  initialStatus := fun _ => .ok none
  validateSpec := FleetDesignationSpec.validateSpec
  validateSpecUpdate := fun _ _ => .ok ()
  validateSpecWithNamedSiblings := fun _ _ _ => .ok ()
  tree := indexedTree "FleetDesignation"
  schema := definitionSchema
  sha256 := fun bytes => Vector.replicate 32 (UInt8.ofNat bytes.length)
  admitApply := fun _ _ spec =>
    if spec.project ∈ declared then .ok ()
    else .error (.invalid s!"fleet Project \x60{spec.project}\x60 is not declared")
  admitDelete := fun _ _ => .ok ()

def fleetInput : InputMeta := { name := fleetDesignationName }

def fleetWriter : WriterIdentity := { role := .operator }

/-- What `root` stores after its first apply. -/
def firstFleet (root : NodeId) (spec : FleetDesignationSpec) (now : Timestamp) :
    Definitions Json FleetDesignationSpec Unit :=
  (applyAs (fleetResolver root ["harbour", "dock"]) {} fleetWriter fleetInput spec now now).1

/-- `b` applied its project, and then received what `a` had applied. -/
def concurrentFleets (a b : FleetDesignationSpec) : Definitions Json FleetDesignationSpec Unit :=
  match (firstFleet "a" a 100).store.objects[fleetDesignationName]? with
  | some row => (firstFleet "b" b 110).hold "a" fleetDesignationName ⟨row, 120⟩
  | none => firstFleet "b" b 110

/-- Two roots named different projects, and `a`'s is chosen. -/
def twoProjects : Definitions Json FleetDesignationSpec Unit :=
  concurrentFleets { project := "harbour" } { project := "dock" }

end Flotilla.Definition
