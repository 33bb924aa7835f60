import Flotilla.Lib.VersionVector
import Flotilla.Lib.Decimal

/-!
# Resource objects

The records that every store passes around: metadata, causal stamps of the
definitions class, objects, tombstones, list and watch positions, and the error
type.  `S` is a kind's spec type and `T` its status type; the untyped store uses
the JSON value type for both.

Instants are integers and `u64` counters are natural numbers with the bound
`u64Max` where an operation can reach it.
-/

namespace Flotilla

open Lib

/-- A root of the fleet, compared by its identifier. -/
abbrev NodeId := String

/-- An instant. -/
abbrev Timestamp := Int

/-- The largest `u64`. -/
def u64Max : Nat := 2 ^ 64 - 1

/-- `u64::saturating_add`. -/
def saturatingAdd (a b : Nat) : Nat := min (a + b) u64Max

/-- `str::parse::<u64>`. -/
def parseU64 (text : String) : Option Nat := Decimal.parse u64Max text

/-- The text of the error of `str::parse::<u64>`. -/
def parseU64Error (text : String) : String := Decimal.parseError u64Max text

theorem parseU64_toString {n : Nat} (h : n ≤ u64Max) : parseU64 (toString n) = some n :=
  Decimal.parse_toString h

/-! ### Errors -/

inductive ResourceError where
  | notFound (name : String)
  | conflict (name message : String)
  | invalid (message : String)
  | watchExpired (requestedVersion : String) (compactedThrough : Option String)
  | other (message : String)
  deriving DecidableEq, Repr

/-- `ResourceError::decode`. -/
def ResourceError.decode (message : String) : ResourceError := .other message

/-- The error as it is shown and kept in diagnostics. -/
def ResourceError.render : ResourceError → String
  | .notFound name => "resource not found: " ++ name
  | .conflict name message => "resource conflict for " ++ name ++ ": " ++ message
  | .invalid message => "invalid resource: " ++ message
  | .watchExpired requestedVersion (some compactedThrough) =>
    "watch resourceVersion " ++ requestedVersion ++ " expired; events through "
      ++ compactedThrough ++ " were compacted"
  | .watchExpired requestedVersion none =>
    "watch resourceVersion " ++ requestedVersion ++ " expired"
  | .other message => message

/-! ### Causal stamps of definitions -/

inductive WriterRole where
  | operator
  | reconcileLoop
  | actuator
  deriving DecidableEq, Repr

structure WriterIdentity where
  role : WriterRole
  source : Option String := none
  storeAuthority : Option NodeId := none
  deriving DecidableEq, Repr

/-- `WriterIdentity::operator().with_source(source)`. -/
def WriterIdentity.operatorWithSource (source : String) : WriterIdentity :=
  { role := .operator, source := some source }

/-- One causally unique write in a definitions-class record. -/
abbrev CausalDot := Dot NodeId

/-- The key of a merged field: the deletion marker `$deleted`, or `spec.<field>`. -/
inductive FieldPath where
  | deleted
  | spec (field : String)
  deriving DecidableEq, Repr

/-- The key as the store writes it. -/
def FieldPath.render : FieldPath → String
  | .deleted => "$deleted"
  | .spec field => "spec." ++ field

theorem FieldPath.render_injective : Function.Injective FieldPath.render := by
  intro p q h
  have hne : ∀ field, "$deleted" ≠ "spec." ++ field := by
    intro field h
    have hlist := congrArg String.toList h
    simp at hlist
  cases p with
  | deleted =>
    cases q with
    | deleted => rfl
    | spec g => exact absurd h (hne g)
  | spec f =>
    cases q with
    | deleted => exact absurd h.symm (hne f)
    | spec g => exact congrArg FieldPath.spec ((String.append_right_inj "spec.").mp h)

instance : Ord FieldPath := ⟨fun p q => compare p.render q.render⟩

instance : Std.TransOrd FieldPath :=
  inferInstanceAs (Std.TransCmp (compareOn FieldPath.render))

instance : Std.LawfulEqOrd FieldPath where
  compare_self := Std.ReflCmp.compare_self
  eq_of_compare := by
    intro p q h
    have hrender : compare p.render q.render = .eq := h
    exact FieldPath.render_injective (Std.compare_eq_iff_eq.mp hrender)

/-- Causal state captured when a field was last authored. -/
structure FieldMergeMetadata where
  dot : CausalDot
  seen : VersionVector NodeId
  writtenAt : Timestamp
  writer : Option WriterIdentity
  deriving DecidableEq

/-- One causally-maximal value shown when a definitions field conflicts. -/
structure MergeConflictSibling (V : Type) where
  value : V
  dot : CausalDot
  writtenAt : Timestamp
  deriving DecidableEq

/-- Store-authored causal metadata for a definitions-class object. -/
structure MergeMetadata (V : Type) where
  fields : BTreeMap FieldPath FieldMergeMetadata
  seen : VersionVector NodeId
  conflicts : BTreeMap FieldPath (List (MergeConflictSibling V))
  deriving DecidableEq

/-! ### Metadata and objects -/

structure OwnerReference where
  apiVersion : String
  kind : String
  name : String
  controller : Bool
  deriving DecidableEq, Repr

/-- The metadata a writer supplies. -/
structure InputMeta where
  name : String
  labels : BTreeMap String String := ∅
  annotations : BTreeMap String String := ∅
  ownerReferences : List OwnerReference := []
  finalizers : List String := []
  deletionTimestamp : Option Timestamp := none
  deriving DecidableEq

/-- The metadata a store keeps.  `V` is the type of the JSON values in conflicts. -/
structure ObjectMeta (V : Type) where
  name : String
  ns : String
  resourceVersion : String
  labels : BTreeMap String String := ∅
  annotations : BTreeMap String String := ∅
  ownerReferences : List OwnerReference := []
  finalizers : List String := []
  deletionTimestamp : Option Timestamp := none
  creationTimestamp : Timestamp
  merge : Option (MergeMetadata V) := none
  deriving DecidableEq

/-- `InputMeta::from(&ObjectMeta)`. -/
def ObjectMeta.toInputMeta {V : Type} (m : ObjectMeta V) : InputMeta where
  name := m.name
  labels := m.labels
  annotations := m.annotations
  ownerReferences := m.ownerReferences
  finalizers := m.finalizers
  deletionTimestamp := m.deletionTimestamp

/-- `ObjectMeta::is_pending_finalization`. -/
def ObjectMeta.isPendingFinalization {V : Type} (m : ObjectMeta V) : Bool :=
  !m.finalizers.isEmpty && m.deletionTimestamp.isSome

/-- The annotation key that encoding and decoding drop for every kind. -/
def bootstrapPathAnnotation : String := "flotilla.work/project-bootstrap-path"

structure ResourceObject (V S T : Type) where
  metadata : ObjectMeta V
  spec : S
  status : Option T
  deriving DecidableEq

/-- The object as `encode_annotations` writes it and `decode_annotations` reads it. -/
def ResourceObject.stripped {V S T : Type} (o : ResourceObject V S T) : ResourceObject V S T :=
  { o with metadata := { o.metadata with
      annotations := o.metadata.annotations.erase bootstrapPathAnnotation } }

theorem ResourceObject.stripped_stripped {V S T : Type} (o : ResourceObject V S T) :
    o.stripped.stripped = o.stripped := by
  have herase : (o.metadata.annotations.erase bootstrapPathAnnotation).erase
      bootstrapPathAnnotation = o.metadata.annotations.erase bootstrapPathAnnotation :=
    BTreeMap.erase_eq_self_iff.mpr (by simp)
  simp only [ResourceObject.stripped, herase]

/-- A deletion that names an object without its body. -/
structure ResourceTombstone where
  name : String
  ns : String
  resourceVersion : String
  annotations : BTreeMap String String := ∅
  deriving DecidableEq

/-- A consistent read of a stream, with the position it was read at. -/
structure ResourceList (V S T : Type) where
  items : List (ResourceObject V S T)
  resourceVersion : String
  generation : Option String
  deriving DecidableEq

/-- Cross-root behaviour of a kind. -/
inductive ReplicationClass where
  | none
  | definitions
  | convergentFacts
  | homeBoundRuntime
  | observations
  deriving DecidableEq, Repr

end Flotilla
