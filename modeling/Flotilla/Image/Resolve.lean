import Flotilla.Image.Layer

/-!
# Resolution of a composed image

`resolveImage` chooses the layers of one vessel: the base, the selected shared
layers, the project's layer, the agent runtime, the providers of the vessel's
needs and then, in a loop, the providers of what the chosen layers require.  The
chosen layers are checked and each tier is ordered by its `requires` edges.

The two loops of the source without a bound (`loop` over the missing requirements
and `while !blockers.is_empty()`) are run with fuel.  `resolveImage` can also
panic, where versions are sorted and where a harness layer is looked up by its
exact capability.
-/

namespace Flotilla.Image

open Flotilla.Lib Query

/-- The chosen layers, by name. -/
abbrev Selected := BTreeMap String ImageLayerSpec

def Selected.values (selected : Selected) : List ImageLayerSpec := selected.toList.map Prod.snd

structure ImageSelection where
  base : Option String := none
  layers : List String := []
deriving DecidableEq

/-- Inputs for one vessel's composition. -/
structure ImageRequest where
  project : String
  selection : Option ImageSelection := none
  defaults : Option ImageSelection := none
  needs : BTreeSet String := ∅
  harnessAdapters : BTreeSet String := ∅

/-- One vessel's ordered layer list and its identity. -/
structure ResolvedImage where
  identity : String
  layers : List ImageLayerSpec
  shadowed : List ShadowedImageLayer
deriving DecidableEq

/-- What resolution calls and does not look into: the library's sort, the validation of one
definition and the identity of a layer list. -/
structure Library where
  sortBy : SortBy
  validate : ImageLayerSpec → Except String Unit
  imageIdentity : List ImageLayerSpec → String

section Choices

/-! ### Choosing layers -/

variable (effective : EffectiveImageCatalogue) (selected : Selected)

/-- Exact `provides` lookup: a selected layer providing the capability wins; otherwise
exactly one default version of an unselected, non-base name. -/
def EffectiveImageCatalogue.provider (capability : String) (requiredBy : Option String) :
    Except ImageResolutionError (Option ImageLayerSpec) :=
  if selected.values.any (provides · capability) then .ok none
  else do
    let candidates := effective.defaultLayers.filter fun layer =>
      decide (layer.tier ≠ .base ∧ layer.name ∉ selected) && provides layer capability
    candidates.forM fun candidate => effective.touch candidate.name
    match candidates with
    | [] => .error (.unresolvable capability requiredBy)
    | [layer] => .ok (some layer)
    | _ => .error (.duplicateProviders capability (candidates.map (·.name)))

def byReference (reference : String) (tier : ImageLayerTier) :
    Except ImageResolutionError ImageLayerSpec := do
  let layer ← effective.lookup reference
  refuseIf (layer.tier ≠ tier) (.wrongTier reference tier layer.tier)
  return layer

def select (layer : ImageLayerSpec) : Except ImageResolutionError Selected :=
  match selected[layer.name]? with
  | some existing =>
    if existing.version = layer.version then .ok selected
    else
      let versions : BTreeSet String := .ofList [existing.version, layer.version] compare
      .error (.duplicateSelection layer.name versions.toList)
  | none => .ok (selected.insert layer.name layer)

/-- Choose the provider of a need, where nothing chosen provides it. -/
def addProvider (need : String) (requiredBy : Option String) :
    Except ImageResolutionError Selected := do
  match ← effective.provider selected need requiredBy with
  | none => return selected
  | some layer =>
    refuseIf (layer.tier = .base ∨ layer.tier = .project)
      (.notSelectable need layer.name layer.tier)
    select selected layer

/-- Choose the provider of a part of the agent runtime. -/
def addRuntime (capability : String) : Except ImageResolutionError Selected := do
  match ← effective.provider selected capability none with
  | none => return selected
  | some layer =>
    refuseIf (layer.tier ≠ .agentRuntime) (.notSelectable capability layer.name layer.tier)
    select selected layer

def baseReference (request : ImageRequest) : Except ImageResolutionError String :=
  match (request.selection.bind (·.base)).or (request.defaults.bind (·.base)) with
  | some base => .ok base
  | none =>
    match effective.baseNames with
    | [only] => .ok only
    | names => .error (.noBase names)

def selectShared (reference : String) : Except ImageResolutionError Selected := do
  select selected (← byReference effective reference .shared)

def selectProject : Except ImageResolutionError Selected := do
  let projectLayers := effective.defaultLayers.filter (·.tier = .project)
  projectLayers.forM fun layer => effective.touch layer.name
  match projectLayers with
  | [] => return selected
  | [layer] => select selected layer
  | layers => .error (.multipleProjectLayers (layers.map (·.name)))

/-- The adapter that a `harness:` need names. -/
def harnessAdapter (need : String) : Option String :=
  ("harness:".toList.isPrefixOf? need.toList).map fun rest =>
    String.ofList (rest.takeWhile fun c => c ≠ '@' ∧ c ≠ '>')

namespace ImageRequest

variable (request : ImageRequest)

def sharedReferences : List String :=
  ((request.selection.or request.defaults).map (·.layers)).getD []

/-- Harness needs with their adapters. -/
def harnessNeeds : List (String × String) :=
  request.needs.toList.filterMap fun need => (harnessAdapter need).map (·, need)

def plainNeeds : List String :=
  request.needs.toList.filter fun need => (harnessAdapter need).isNone

def adapters : BTreeSet String :=
  request.harnessNeeds.foldl (fun adapters need => adapters.insert need.1) request.harnessAdapters

def runtime : List String :=
  request.adapters.toList.map ("harness:" ++ ·) ++ ["crew:utilities"]

end ImageRequest

/-- Everything that the request itself asks for. -/
def selectRequested (request : ImageRequest) : Except ImageResolutionError Selected := do
  let base ← byReference effective (← baseReference effective request) .base
  let selected ← select ∅ base
  let selected ← request.sharedReferences.foldlM (selectShared effective) selected
  let selected ← selectProject effective selected
  let selected ← request.runtime.foldlM (addRuntime effective) selected
  request.plainNeeds.foldlM (addProvider effective · · none) selected

/-! ### The requires closure -/

/-- The first requirement that nothing chosen provides, and the layer that has it. -/
def Selected.missing : Option (String × String) :=
  (selected.values.flatMap fun layer => layer.requires.toList.map (·, layer.name)).find?
    fun missing => !selected.values.any (provides · missing.1)

/-- One round of the loop; none when it is left. -/
def closeRequires : Except (Halt ImageResolutionError) (Option Selected) :=
  match selected.missing with
  | none => .ok none
  | some (need, requiredBy) =>
    refusing ((addProvider effective selected need (some requiredBy)).map some)

/-! ### Checks -/

/-- The chosen harness layer has the version a need asks for. -/
def checkHarness (harness : String × String) : Except (Halt ImageResolutionError) Unit :=
  let capability := "harness:" ++ harness.1
  match selected.values.find? (·.provides.contains capability) with
  | none => .error (.panicked "harness layer selected above")
  | some layer =>
    refusing (refuseIf (harness.2 ≠ capability ∧ provides layer harness.2 = false)
      (.harnessVersion harness.2 layer.name))

def checkRequirement (layer : ImageLayerSpec) (need : String) : Except ImageResolutionError Unit :=
  if provides layer need then .ok ()
  else (selected.values.filter (provides · need)).forM fun provider =>
    refuseIf (layer.tier.rank < provider.tier.rank)
      (.requiresUpward layer.name need provider.name)

/-- A chosen layer is valid and requires nothing of a higher tier. -/
def checkLayer (validate : ImageLayerSpec → Except String Unit) (selected : Selected)
    (layer : ImageLayerSpec) : Except ImageResolutionError Unit := do
  (validate layer).mapError (.invalid layer.name)
  layer.requires.toList.forM (checkRequirement selected layer)

end Choices

/-! ### Ordering a tier -/

/-- `provider` has to come before `layer`. -/
def blocks (layer provider : ImageLayerSpec) : Bool :=
  decide (provider.name ≠ layer.name) && layer.requires.toList.any (provides provider)

/-- The layers not placed yet with the names each waits for, and the layers placed. -/
structure Arranging where
  blockers : BTreeMap String (BTreeSet String)
  ordered : List ImageLayerSpec

/-- Enter a layer with the names that it waits for. -/
def addBlockers (layers : List ImageLayerSpec) (m : BTreeMap String (BTreeSet String))
    (layer : ImageLayerSpec) : BTreeMap String (BTreeSet String) :=
  m.alter layer.name fun waiting => some
    ((waiting.getD ∅).insertMany ((layers.filter (blocks layer)).map (·.name)))

def blockersOf (layers : List ImageLayerSpec) : BTreeMap String (BTreeSet String) :=
  layers.foldl (addBlockers layers) ∅

/-- Place the first layer that waits for nothing. -/
def placeNext (layers : List ImageLayerSpec) (s : Arranging) :
    Except (Halt ImageResolutionError) (Option Arranging) :=
  if s.blockers.isEmpty then .ok none
  else
    match s.blockers.toList.find? fun entry => entry.2.isEmpty with
    | none => .error (.refused (.requiresCycle s.blockers.keys))
    | some (next, _) =>
      match layers.find? (·.name = next) with
      | none => .error (.panicked "blocker keys are layer names")
      | some layer => .ok (some
          { blockers := (s.blockers.erase next).map fun _ waiting => waiting.erase next
            ordered := s.ordered ++ [layer] })

/-- Order one tier by `requires` edges within it, breaking ties by name. -/
def topological (fuel : Nat) (layers : List ImageLayerSpec) :
    Except (Halt ImageResolutionError) (List ImageLayerSpec) := do
  let arranged ← whileM (placeNext layers) fuel { blockers := blockersOf layers, ordered := [] }
  return arranged.ordered

def tiers : List ImageLayerTier := [.base, .shared, .project, .agentRuntime]

def appendTier (fuel : Nat) (selected : Selected) (layers : List ImageLayerSpec)
    (tier : ImageLayerTier) : Except (Halt ImageResolutionError) (List ImageLayerSpec) := do
  return layers ++ (← topological fuel (selected.values.filter (·.tier = tier)))

/-! ### Resolution -/

/-- Resolve one vessel's composition. -/
def resolveImage (library : Library) (fuel : Nat) (catalogue : List ImageLayerSpec)
    (request : ImageRequest) : Except (Halt ImageResolutionError) ResolvedImage := do
  let effective ← panicking (effective library.sortBy catalogue request.project)
  let selected ← refusing (selectRequested effective request)
  let selected ← whileM (closeRequires effective) fuel selected
  request.harnessNeeds.forM (checkHarness selected)
  refusing (selected.values.forM (checkLayer library.validate selected))
  let layers ← tiers.foldlM (appendTier fuel selected) []
  let names : BTreeSet String := .ofList (layers.map (·.name)) compare
  return { identity := library.imageIdentity layers, layers
           shadowed := effective.shadowed.filter fun shadow => names.contains shadow.name }

end Flotilla.Image
