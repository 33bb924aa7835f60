import Flotilla.Definition.Merge

/-!
# The causal context as a set of dots

`causalContext` loops over the rows and raises counters.  Read as a set of dots
it is the union of what each row accounts for: the writes its author had seen
and the writes its fields carry, or, for a row without metadata, the writes of
its origin up to the row's own version.
-/

namespace Flotilla.Definition

open Lib

variable {V S T : Type}

/-- The row accounts for the dot. -/
def RowCovers (source : DefinitionSource V S T) (dot : CausalDot) : Prop :=
  match source.object.metadata.merge with
  | some merge => merge.seen.covers dot = true ∨
      ∃ (path : FieldPath) (field : FieldMergeMetadata), merge.fields[path]? = some field ∧
        dot.authorRoot = field.dot.authorRoot ∧ dot.authorCounter ≤ field.dot.authorCounter
  | none => dot.authorRoot = source.origin ∧ dot.authorCounter ≤ legacyCounter source.object

theorem covers_addContext (context : VersionVector NodeId) (source : DefinitionSource V S T)
    (dot : CausalDot) :
    (addContext context source).covers dot = true ↔
      context.covers dot = true ∨ RowCovers source dot := by
  unfold addContext RowCovers
  cases source.object.metadata.merge with
  | none => exact VersionVector.covers_bump _ _ _ _
  | some merge =>
    show VersionVector.covers (merge.fields.foldl _ _) dot = true ↔ _
    rw [Std.ExtTreeMap.foldl_eq_foldl_toList,
      VersionVector.covers_foldl_bump (fun e : FieldPath × FieldMergeMetadata => e.2.dot.authorRoot)
        (fun e => e.2.dot.authorCounter), VersionVector.covers_join]
    simp only [Prod.exists, Std.ExtTreeMap.mem_toList_iff_getElem?_eq_some, or_assoc]

/-- **The context is the union of what the rows account for.** -/
theorem covers_causalContext (sources : List (DefinitionSource V S T)) (dot : CausalDot) :
    (causalContext sources).covers dot = true ↔ ∃ source ∈ sources, RowCovers source dot := by
  rw [causalContext, foldl_or (P := fun v => VersionVector.covers v dot = true)
    fun context source => covers_addContext context source dot, VersionVector.not_covers_empty]
  simp

end Flotilla.Definition
