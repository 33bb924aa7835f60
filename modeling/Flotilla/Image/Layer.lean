import Flotilla.Lib.While
import Flotilla.Lib.Decimal
import Flotilla.Query.Fields

/-!
# Image layers and the effective catalogue

A composed image is an ordered list of layer definitions.  A project sees, for
each layer name, the versions of the source with the highest precedence that
defines the name; two definitions with one source, name and version clash, and
the clash is refused only when a resolution touches the name.

The sort of the standard library is a parameter (`SortBy`): `compareVersions` is
not transitive on every set of versions, and then a sort may return anything or
panic.
-/

namespace Flotilla.Image

open Flotilla.Lib Query

/-! ### Definitions -/

/-- Fixed composition order, most stable first. -/
inductive ImageLayerTier where
  | base
  | shared
  | project
  | agentRuntime
deriving DecidableEq, Repr

def ImageLayerTier.rank : ImageLayerTier → Nat
  | base => 0
  | shared => 1
  | project => 2
  | agentRuntime => 3

/-- Definition source, ordered by increasing resolution precedence. -/
inductive ImageLayerSource where
  | stdlib
  | installation
  | project
deriving DecidableEq, Repr

def ImageLayerSource.rank : ImageLayerSource → Nat
  | stdlib => 0
  | installation => 1
  | project => 2

instance : Ord ImageLayerSource where
  compare a b := compare a.rank b.rank

theorem ImageLayerSource.compare_eq (a b : ImageLayerSource) :
    compare a b = compare a.rank b.rank := rfl

instance : Std.TransOrd ImageLayerSource where
  eq_swap := by
    intro a b
    rw [ImageLayerSource.compare_eq, ImageLayerSource.compare_eq]
    exact Std.OrientedCmp.eq_swap
  isLE_trans := by
    intro a b c
    simp only [ImageLayerSource.compare_eq]
    exact Std.TransCmp.isLE_trans

instance lawfulEqOrdSource : Std.LawfulEqOrd ImageLayerSource where
  eq_of_compare {a b} h := by
    cases a <;> cases b <;> first | rfl | cases h

/-- One layer definition.  `content` is the rest of it as stored (`from`, fragment, pins,
probe, context files, build secrets): only validation and the identity read it. -/
structure ImageLayerSpec where
  name : String
  version : String
  tier : ImageLayerTier
  source : ImageLayerSource
  project : Option String := none
  provides : BTreeSet String := ∅
  requires : BTreeSet String := ∅
  content : String := ""
deriving DecidableEq

inductive ImageResolutionError where
  | clash (source : ImageLayerSource) (name version : String)
  | unknownLayer (reference : String)
  | wrongTier (reference : String) (expected actual : ImageLayerTier)
  | noBase (candidates : List String)
  | duplicateSelection (name : String) (versions : List String)
  | multipleProjectLayers (names : List String)
  | unresolvable (need : String) (requiredBy : Option String)
  | duplicateProviders (need : String) (providers : List String)
  | notSelectable (need layer : String) (tier : ImageLayerTier)
  | requiresUpward (layer need provider : String)
  | requiresCycle (layers : List String)
  | harnessVersion (need layer : String)
  | invalid (layer reason : String)
deriving DecidableEq, Repr

/-! ### Versions and capabilities -/

/-- Read a `u64`. -/
def parseU64 (text : String) : Option Nat := Decimal.parse (2 ^ 64 - 1) text

/-- Numeric segments compare numerically, others lexically. -/
def compareSegments (left right : String) : Ordering :=
  match parseU64 left, parseU64 right with
  | some l, some r => compare l r
  | _, _ => compare left right

/-- The first pair of segments that differ decides; a proper beginning sorts first. -/
def compareSegmentLists : List String → List String → Ordering
  | [], [] => .eq
  | [], _ :: _ => .lt
  | _ :: _, [] => .gt
  | l :: left, r :: right => (compareSegments l r).then (compareSegmentLists left right)

/-- Dotted version order. -/
def compareVersions (left right : String) : Ordering :=
  compareSegmentLists (parts left.toList) (parts right.toList)

example : compareVersions "2" "10" = .lt ∧ compareVersions "10" "1a" = .lt ∧
    compareVersions "1a" "2" = .lt := by decide +kernel

/-- Compare dotted numeric versions.  Unknown suffixes fail closed. -/
def versionAtLeast (actual required : String) : Bool :=
  match (parts actual.toList).mapM parseU64, (parts required.toList).mapM parseU64 with
  | some a, some r =>
    let length := max a.length r.length
    let padded (l : List Nat) := (List.range length).map fun index => l.getD index 0
    decide (padded r ≤ padded a)
  | _, _ => false

/-- The text before the first `pattern`, and what follows it where the pattern occurs. -/
def splitVersion (pattern : List Char) (text : String) : String × Option String :=
  match splitOnce pattern text.toList with
  | some (name, version) => (String.ofList name, some (String.ofList version))
  | none => (text, none)

/-- Open namespaced capabilities with exact or dotted minimum versions. -/
def capabilitySatisfies (provided need : String) : Bool :=
  let (providedName, version) := splitVersion ['@'] provided
  match splitVersion ['>', '='] need with
  | (name, some minimum) => name = providedName && version.any (versionAtLeast · minimum)
  | (_, none) =>
    match splitVersion ['@'] need with
    | (name, some exact) => name = providedName && version = some exact
    | (_, none) => providedName = need

/-- A layer provides `need` when any of its provides satisfies it. -/
def provides (layer : ImageLayerSpec) (need : String) : Bool :=
  layer.provides.toList.any (capabilitySatisfies · need)

/-! ### The effective catalogue -/

/-- A name defined by a higher-precedence source hides every version of that name from
lower sources. -/
structure ShadowedImageLayer where
  name : String
  source : ImageLayerSource
  shadowed : ImageLayerSource
  versions : List String
deriving DecidableEq

structure EffectiveImageCatalogue where
  /-- The winning source's versions per name, ascending. -/
  byName : BTreeMap String (List ImageLayerSpec)
  shadowed : List ShadowedImageLayer
  clashes : BTreeMap String (List ImageResolutionError)

/-- The library's stable sort by a comparison; none when it panics, as it may where the comparison
is no total order. -/
abbrev SortBy : Type 1 := ∀ {A : Type}, (A → A → Ordering) → List A → Option (List A)

def sorted {A : Type} (sortBy : SortBy) (cmp : A → A → Ordering) (l : List A) :
    Except String (List A) :=
  okOr (sortBy cmp l)
    "user-provided comparison function does not correctly implement a total order"

/-- The definitions read so far, by name and source. -/
structure Gathered where
  byName : BTreeMap String (BTreeMap ImageLayerSource (List ImageLayerSpec)) := ∅
  clashes : BTreeMap String (List ImageResolutionError) := ∅

def Gathered.add (project : String) (g : Gathered) (layer : ImageLayerSpec) : Gathered :=
  if layer.source = .project ∧ layer.project ≠ some project then g
  else
    let sources := g.byName[layer.name]?.getD ∅
    let versions := sources[layer.source]?.getD []
    if versions.any (·.version = layer.version) then
      let clash := .clash layer.source layer.name layer.version
      { g with clashes := g.clashes.alter layer.name fun old => some (old.getD [] ++ [clash]) }
    else
      { g with byName := g.byName.insert layer.name
                  (sources.insert layer.source (versions ++ [layer])) }

/-- The versions of the last source, and the sources it hides. -/
def settleName (sortBy : SortBy) (name : String)
    (sources : BTreeMap ImageLayerSource (List ImageLayerSpec)) :
    Except String (List ImageLayerSpec × List ShadowedImageLayer) := do
  -- The entries are listed in key order, so the last one is what `pop_last` takes.
  let (winner, versions) ← okOr sources.toList.getLast? "each name has at least one source"
  let shadowed ← (sources.erase winner).toList.mapM fun (source, hidden) => do
    let versions ← sorted sortBy compareVersions (hidden.map (·.version))
    return { name, source := winner, shadowed := source, versions }
  let versions ← sorted sortBy (fun l r => compareVersions l.version r.version) versions
  return (versions, shadowed)

/-- The catalogue as seen by `project`. -/
def effective (sortBy : SortBy) (catalogue : List ImageLayerSpec) (project : String) :
    Except String EffectiveImageCatalogue := do
  let gathered := catalogue.foldl (Gathered.add project) {}
  let settled ← gathered.byName.toList.mapM fun (name, sources) => do
    return (name, ← settleName sortBy name sources)
  return {
    byName := .ofList (settled.map fun (name, versions, _) => (name, versions)) compare
    shadowed := settled.flatMap fun (_, _, shadowed) => shadowed
    clashes := gathered.clashes }

namespace EffectiveImageCatalogue

variable (effective : EffectiveImageCatalogue)

/-- Every version that the project sees. -/
def layers : List ImageLayerSpec := effective.byName.toList.flatMap Prod.snd

/-- The default (highest) version of each name. -/
def defaultLayers : List ImageLayerSpec :=
  effective.byName.toList.filterMap fun entry => entry.2.getLast?

/-- A resolution that reaches a clashed name refuses with the clash. -/
def touch (name : String) : Except ImageResolutionError Unit :=
  match effective.clashes[name]?.bind List.head? with
  | some clash => .error clash
  | none => .ok ()

/-- `rust` selects the highest version; `zig@0.15` the highest version equal to or
dotted-prefixed by `0.15`. -/
def lookup (reference : String) : Except ImageResolutionError ImageLayerSpec := do
  let (name, version) := splitVersion ['@'] reference
  effective.touch name
  let versions ← okOr effective.byName[name]? (.unknownLayer reference)
  let matching (layer : ImageLayerSpec) : Bool :=
    version.all fun start =>
      layer.version = start || (start.toList ++ ['.']).isPrefixOf layer.version.toList
  okOr (versions.reverse.find? matching) (.unknownLayer reference)

def baseNames : List String :=
  (effective.defaultLayers.filter (·.tier = .base)).map (·.name)

end EffectiveImageCatalogue

end Flotilla.Image
