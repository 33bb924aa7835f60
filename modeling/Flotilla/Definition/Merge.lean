import Flotilla.Resource

/-!
# Merging the rows of a definition

A definition has at most one row per root: the reading root's own row and one
replica per other origin.  `mergeSources` turns the rows into the one object the
fleet reads.  Every field, and the deletion marker with them, is merged alone:
the candidates of a field are what each row holds of it, in origin order; the
candidates nobody else had seen survive; equal values are told apart by nothing,
so the first of each is kept; and the smallest dot is chosen, the others being
shown as conflict siblings.

`DefinitionKind` is a kind's serde pair.  Its law is what derived serialisation
of a struct gives: a mixture of whole encodings that decodes at all encodes back
to the mixture.  A kind whose rows cannot be mixed, such as an enumeration of
shapes, fails to decode the mixture instead.
-/

namespace Flotilla.Definition

open Lib

/-- JSON values, as far as the merge looks into them. -/
class JsonValue (V : Type) where
  ofBool : Bool → V
  asBool : V → Option Bool
  text : V → String
  asBool_ofBool : ∀ b, asBool (ofBool b) = some b
  text_injective : Function.Injective text

/-- `fields` takes every field of some encoding in `parts`, and each value from one of them. -/
structure Mixture {V : Type} (parts : List (BTreeMap String V)) (fields : BTreeMap String V) :
    Prop where
  nonempty : parts ≠ []
  mem_iff : ∀ f : String, f ∈ fields ↔ ∃ part ∈ parts, f ∈ part
  value : ∀ (f : String) (v : V), fields[f]? = some v → ∃ part ∈ parts, part[f]? = some v

structure DefinitionKind (V S : Type) where
  kind : String
  -- `serde_json::to_value`; `none` when the value is not an object.
  toObject : S → Except String (Option (BTreeMap String V))
  -- `serde_json::from_value`.
  fromObject : BTreeMap String V → Except String S
  encode_mixture : ∀ parts fields spec,
    (∀ part ∈ parts, ∃ s, toObject s = .ok (some part)) → Mixture parts fields →
    fromObject fields = .ok spec → toObject spec = .ok (some fields)

structure DefinitionSource (V S T : Type) where
  object : ResourceObject V S T
  origin : NodeId
  syncedAt : Option Timestamp

structure FieldCandidate (V : Type) where
  value : V
  metadata : FieldMergeMetadata

variable {V S T : Type}

def specObject (K : DefinitionKind V S) (spec : S) : Except ResourceError (BTreeMap String V) :=
  match K.toObject spec with
  | .error e => .error (.decode s!"encode definition spec: {e}")
  | .ok none => .error (.decode "definition spec is not a JSON object")
  | .ok (some fields) => .ok fields

/-! ### Causal context and legacy rows -/

def legacyCounter (object : ResourceObject V S T) : Nat :=
  (parseU64 object.metadata.resourceVersion).getD 1

def legacyField (source : DefinitionSource V S T) : FieldMergeMetadata where
  dot := ⟨source.origin, legacyCounter source.object⟩
  seen := ∅
  writtenAt := source.syncedAt.getD source.object.metadata.creationTimestamp
  writer := none

/-- The causal context after one more row. -/
def addContext (context : VersionVector NodeId) (source : DefinitionSource V S T) :
    VersionVector NodeId :=
  match source.object.metadata.merge with
  | some merge =>
    merge.fields.foldl
      (fun context _ field => context.bump field.dot.authorRoot field.dot.authorCounter)
      (context.join merge.seen)
  | none => context.bump source.origin (legacyCounter source.object)

def causalContext (sources : List (DefinitionSource V S T)) : VersionVector NodeId :=
  sources.foldl addContext ∅

/-! ### The candidates of a field -/

def fieldMetadata (source : DefinitionSource V S T) (path : FieldPath) : FieldMergeMetadata :=
  (source.object.metadata.merge.bind fun merge => merge.fields[path]?).getD (legacyField source)

section Candidates

variable [JsonValue V]

def deletionCandidate (source : DefinitionSource V S T) : FieldCandidate V where
  value := JsonValue.ofBool source.object.metadata.deletionTimestamp.isSome
  metadata := fieldMetadata source .deleted

def rowCandidates (source : DefinitionSource V S T) (spec : BTreeMap String V) :
    List (FieldPath × FieldCandidate V) :=
  spec.toList.map (fun entry =>
    (.spec entry.1, ⟨entry.2, fieldMetadata source (.spec entry.1)⟩))
    ++ [(.deleted, deletionCandidate source)]

def fieldCandidates (K : DefinitionKind V S) (sources : List (DefinitionSource V S T)) :
    Except ResourceError (BTreeMap FieldPath (List (FieldCandidate V))) := do
  let rows ← sources.mapM fun source => do
    return rowCandidates source (← specObject K source.object.spec)
  return BTreeMap.groupBy rows.flatten

end Candidates

/-! ### Merging one field -/

/-- `other` is another write, and its author had seen `candidate`. -/
def FieldCandidate.supersedes (other candidate : FieldCandidate V) : Bool :=
  other.metadata.dot ≠ candidate.metadata.dot
    && other.metadata.seen.covers candidate.metadata.dot

-- The source also compares positions; equal positions have equal dots.
def causallyMaximal (candidates : List (FieldCandidate V)) : List (FieldCandidate V) :=
  candidates.filter fun candidate => !candidates.any fun other => other.supersedes candidate

def dotLe (left right : CausalDot) : Prop :=
  left.authorRoot < right.authorRoot
    ∨ (left.authorRoot = right.authorRoot ∧ left.authorCounter ≤ right.authorCounter)

instance : DecidableRel dotLe := fun left right =>
  inferInstanceAs (Decidable (left.authorRoot < right.authorRoot
    ∨ (left.authorRoot = right.authorRoot ∧ left.authorCounter ≤ right.authorCounter)))

/-- The surviving values of a field, the chosen one first. -/
def mergeField [JsonValue V] (candidates : List (FieldCandidate V)) : List (FieldCandidate V) :=
  let distinct := BTreeMap.firstBy (fun candidate => JsonValue.text candidate.value)
    (causallyMaximal candidates)
  (distinct.toList.map Prod.snd).insertionSort fun left right =>
    dotLe left.metadata.dot right.metadata.dot

/-! ### The merge -/

def sibling (candidate : FieldCandidate V) : MergeConflictSibling V where
  value := candidate.value
  dot := candidate.metadata.dot
  writtenAt := candidate.metadata.writtenAt

def mergedFields (values : BTreeMap FieldPath (List (FieldCandidate V))) :
    BTreeMap FieldPath FieldMergeMetadata :=
  values.filterMap fun _ candidates => candidates.head?.map (·.metadata)

def mergeConflicts (values : BTreeMap FieldPath (List (FieldCandidate V))) :
    BTreeMap FieldPath (List (MergeConflictSibling V)) :=
  values.filterMap fun _ candidates =>
    if 1 < candidates.length then some (candidates.map sibling) else none

def insertChosen (spec : BTreeMap String V) : FieldPath → List (FieldCandidate V) →
    BTreeMap String V
  | .spec field, chosen :: _ => spec.insert field chosen.value
  | _, _ => spec

def chosenSpec (values : BTreeMap FieldPath (List (FieldCandidate V))) : BTreeMap String V :=
  values.foldl insertChosen ∅

def chosenDeletion [JsonValue V] (values : BTreeMap FieldPath (List (FieldCandidate V))) :
    Option Timestamp :=
  match values[FieldPath.deleted]? with
  | some (chosen :: _) =>
    if (JsonValue.asBool chosen.value).getD false then some chosen.metadata.writtenAt else none
  | _ => none

def sortByOrigin (sources : List (DefinitionSource V S T)) : List (DefinitionSource V S T) :=
  sources.insertionSort fun left right => left.origin ≤ right.origin

def mergedVersion (sources : List (DefinitionSource V S T)) : String :=
  ",".intercalate (sources.map fun source =>
    source.origin ++ ":" ++ source.object.metadata.resourceVersion)

def mergeSources [JsonValue V] (K : DefinitionKind V S) (sources : List (DefinitionSource V S T)) :
    Except ResourceError (ResourceObject V S T) := do
  let context := causalContext sources
  let sources := sortByOrigin sources
  let candidates ← fieldCandidates K sources
  let values := candidates.map fun _ candidates => mergeField candidates
  if values.toList.any fun entry => entry.2.isEmpty then
    throw (.decode "definition field has no maximal value")
  let some source := sources.head?
    | throw (.decode "cannot merge an empty definition source set")
  let spec ← match K.fromObject (chosenSpec values) with
    | .ok spec => pure spec
    | .error e => throw (.decode s!"decode merged definition spec: {e}")
  return {
    metadata := {
      source.object.metadata with
      resourceVersion := mergedVersion sources
      deletionTimestamp := chosenDeletion values
      merge := some {
        fields := mergedFields values
        seen := context
        conflicts := mergeConflicts values } }
    spec
    status := source.object.status }

/-- `definition_is_visible`: not deleted, or the deletion itself is in conflict. -/
def definitionIsVisible (object : ResourceObject V S T) : Bool :=
  let deleted := object.metadata.deletionTimestamp.isSome
    && object.metadata.merge.any fun merge => merge.fields.contains .deleted
  !deleted || object.metadata.merge.any fun merge => merge.conflicts.contains .deleted

end Flotilla.Definition
