import Flotilla.Lib.Json

/-!
# Declared fields

Which values a stored tree has at a declared path.  A path names an ordinary
field by its components, an annotation or a label by its quoted key, or the
members of an array or a map by a `*`.  Three kinds project a field that their
tree does not hold from their decoded spec; the decoding is outside this model
(`SpecDecoders`).
-/

namespace Flotilla.Query

open Lib

/-! ### Paths -/

/-- Split at the first occurrence. -/
def splitOnce (pattern : List Char) : List Char → Option (List Char × List Char)
  | [] => if pattern = [] then some ([], []) else none
  | c :: rest =>
    match pattern.isPrefixOf? (c :: rest) with
    | some after => some ([], after)
    | none => (splitOnce pattern rest).map fun (before, after) => (c :: before, after)

/-- The array or map that a path selects members of, and the path inside a member. -/
def arrayFieldPath (path : List Char) : Option (List Char × List Char) :=
  splitOnce ['[', ']', '.'] path
    <|> splitOnce ['.', '*', '.'] path
    <|> (['.', '*'].isSuffixOf? path).map fun array => (array, [])

def parts (path : List Char) : List String :=
  (path.splitOn '.').map String.ofList

/-- The key of a quoted `metadata.annotations` or `metadata.labels` path. -/
def quotedKey (map path : List Char) : Option String := do
  let rest ← (("metadata.".toList ++ map ++ ['.', '"']).isPrefixOf? path)
  let key ← ['"'].isSuffixOf? rest
  return String.ofList key

def getPath : List String → Json → Option Json
  | [], value => some value
  | part :: rest, value => (value.get part).bind (getPath rest)

def metadataEntry (map key : String) (value : Json) : Option Json := do
  let metadata ← value.get "metadata"
  let entries ← metadata.get map
  entries.get key

def declaredFieldValue (path : List Char) (value : Json) : Option Json :=
  match quotedKey "annotations".toList path with
  | some key => metadataEntry "annotations" key value
  | none =>
    match quotedKey "labels".toList path with
    | some key => metadataEntry "labels" key value
    | none => getPath (parts path) value

/-! ### Values -/

/-- Composite values are indexed by their printed form. -/
def text : Json → Option String
  | .string s => some s
  | .object fields => some (Json.object fields).print
  | .number n => some (Json.number n).print
  | _ => none

def walk : List String → Json → List String
  | [], value => (text value).toList
  | part :: rest, value =>
    if part = "*" then
      match value with
      | .array items => items.flatMap (walk rest)
      | .object fields => fields.flatMap fun field => walk rest field.2
      | _ => []
    else
      match value.get part with
      | some value => walk rest value
      | none => []

structure ForgeHosts where
  hosts : List String
  gitSshHost : String
  httpsUrl : String

/-- What the three projected fields need of a decoded spec. -/
structure SpecDecoders where
  /-- The printed subjects of a convoy spec, as `declared_subjects` lists them. -/
  convoySubjects : Json → Option (List String)
  forgeHosts : Json → Option ForgeHosts
  /-- The catalog names of a repository spec, in order. -/
  repositoryTargets : Json → Option (List String)

def kindOf (value : Json) : Option String := (value.get "kind").bind Json.asStr

/-- `value["spec"]`, which is null when it is missing. -/
def specOf (value : Json) : Json := (value.get "spec").getD .null

-- Convoys of an older generation carry their subjects elsewhere in the spec.
def legacySubjects (value : Json) : Bool :=
  match value.get "spec" with
  | none => false
  | some spec =>
    (spec.get "change_request").any (fun request => !request.isNull)
      || ((spec.get "issues").bind Json.asArray).any fun issues => !issues.isEmpty

def asciiLowercase (s : String) : String := String.ofList (s.toList.map Char.toLower)

def httpsHost (url : String) : Option String := do
  let (_, rest) ← splitOnce [':', '/', '/'] url.toList
  let host ← (rest.splitOn '/').head?
  return asciiLowercase (String.ofList host)

def remoteHosts (spec : ForgeHosts) : List String :=
  (Std.ExtTreeSet.ofList (spec.hosts.map asciiLowercase ++ [asciiLowercase spec.gitSshHost]
    ++ (httpsHost spec.httpsUrl).toList) compare).toList

/-- The values of the fields that are projected from the decoded spec. -/
def projected (d : SpecDecoders) (path : String) (value : Json) : Option (List String) :=
  if path = "spec.subjects.*.subject" ∧ kindOf value = some "Convoy" ∧ legacySubjects value then
    d.convoySubjects (specOf value)
  else if path = "spec.remote_hosts.*" ∧ kindOf value = some "Forge" then
    (d.forgeHosts (specOf value)).map remoteHosts
  else if path = "spec.catalog_targets.*" ∧ kindOf value = some "Repository" then
    d.repositoryTargets (specOf value)
  else none

def walkMembers (path : List Char) (value : Json) : List String :=
  match arrayFieldPath path with
  | some (array, suffix) =>
    match declaredFieldValue array value with
    | some members => walk ("*" :: (if suffix = [] then [] else parts suffix)) members
    | none => []
  | none => ((declaredFieldValue path value).bind text).toList

def declaredFieldValues (d : SpecDecoders) (path : String) (value : Json) : List String :=
  (projected d path value).getD (walkMembers path.toList value)

/-! ### Labels and owners -/

/-- The labels of a tree that are text. -/
def labels (value : Json) : List (String × String) :=
  match ((value.get "metadata").bind (Json.get "labels")).bind Json.asObject with
  | none => []
  | some fields => fields.filterMap fun (key, value) => value.asStr.map (key, ·)

structure OwnerQuery where
  apiVersion : String
  kind : String
  name : String
  deriving DecidableEq

def OwnerQuery.key (o : OwnerQuery) : String :=
  (Json.array [.string o.apiVersion, .string o.kind, .string o.name]).print

def ownerOf (value : Json) : Option OwnerQuery := do
  let apiVersion ← (value.get "apiVersion").bind Json.asStr
  let kind ← (value.get "kind").bind Json.asStr
  let name ← (value.get "name").bind Json.asStr
  return ⟨apiVersion, kind, name⟩

/-- The owner references of a tree that are complete. -/
def owners (value : Json) : List OwnerQuery :=
  match ((value.get "metadata").bind (Json.get "ownerReferences")).bind Json.asArray with
  | none => []
  | some references => references.filterMap ownerOf

/-- An owner's key tells its API version, its kind and its name. -/
theorem OwnerQuery.key_injective : Function.Injective OwnerQuery.key := by
  intro a b h
  have hparts : [a.apiVersion, a.kind, a.name] = [b.apiVersion, b.kind, b.name] :=
    Json.strings_inj rfl h
  obtain ⟨version, kind, name⟩ := a
  obtain ⟨rfl, rfl, rfl⟩ := hparts
  rfl

end Flotilla.Query
