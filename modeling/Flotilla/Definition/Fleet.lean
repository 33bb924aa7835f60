import Flotilla.Lib.CausalHistory
import Flotilla.Definition.Authoring
import Flotilla.Definition.Kinds
import Flotilla.Definition.Context

/-!
# Many roots replicating one another's rows

A `Fleet` is what every root stores, with every row a root ever stored of its
own.  A root applies or deletes a definition through its resolver, or receives a
row some root once stored, however old, or forgets one.  `Run` are the fleets
reached from empty stores by such steps in any order, with no root's own counter
at the end of its range when it writes.

For each name the rows ever stored carry a causal history (`historyOf`): their
vectors, and the stamps on their fields.  A write at a root is one honest write
of that history, so the history of every run is consistent, and that is all the
merge needs: in any mix of such rows every field keeps a candidate, and no
candidate's author had seen a candidate that is still shown.
-/

namespace Flotilla.Definition

open Lib Std
open Memory

variable {V S T : Type}

/-! ### Fleets and their steps -/

structure Fleet (V S T : Type) where
  roots : NodeId → Definitions V S T
  /-- The rows a root ever stored of its own, by name. -/
  sent : NodeId → String → ResourceObject V S T → Prop

namespace Fleet

def start : Fleet V S T where
  roots := fun _ => {}
  sent := fun _ _ _ => False

/-- A root stores `d`, and from now on its own rows may be received anywhere. -/
def store (f : Fleet V S T) (i : NodeId) (d : Definitions V S T) : Fleet V S T where
  roots := Function.update f.roots i d
  sent := fun j n row => f.sent j n row ∨ (j = i ∧ d.store.objects[n]? = some row)

/-- A root's replicas change, its own rows do not. -/
def replicate (f : Fleet V S T) (i : NodeId) (d : Definitions V S T) : Fleet V S T :=
  { f with roots := Function.update f.roots i d }

end Fleet

def Definitions.forget (d : Definitions V S T) (origin : NodeId) (name : String) :
    Definitions V S T :=
  { d with replicas := d.replicas.modify origin fun rows => rows.erase name }

/-- The resolver of root `i`: the kind is shared, the hooks may differ by root. -/
def site (K : DefinitionKind V S) (hooks : NodeId → Resolver V S T) (i : NodeId) : Resolver V S T :=
  { hooks i with K, localRoot := i }

section Steps

variable [JsonValue V] [DecidableEq V]

/-- The root's own counter of the name, as its next write will read it. -/
def ownContext (K : DefinitionKind V S) (hooks : NodeId → Resolver V S T) (f : Fleet V S T)
    (i : NodeId) (name : String) : Nat :=
  (causalContext (sourcesForName (site K hooks i) (f.roots i) name)).counter i

inductive Step (K : DefinitionKind V S) (hooks : NodeId → Resolver V S T) :
    Fleet V S T → Fleet V S T → Prop
  | apply {f : Fleet V S T} (i : NodeId) (writer : WriterIdentity) (input : InputMeta) (spec : S)
      (now createdAt : Timestamp) (hcounter : ownContext K hooks f i input.name < u64Max) :
      Step K hooks f
        (f.store i (applyAs (site K hooks i) (f.roots i) writer input spec now createdAt).1)
  | delete {f : Fleet V S T} (i : NodeId) (name : String) (now createdAt : Timestamp)
      (hcounter : ownContext K hooks f i name < u64Max) :
      Step K hooks f (f.store i (delete (site K hooks i) (f.roots i) name now createdAt).1)
  | receive {f : Fleet V S T} (i j : NodeId) (name : String) (row : ResourceObject V S T)
      (syncedAt : Timestamp) (hsent : f.sent j name row) :
      Step K hooks f (f.replicate i ((f.roots i).hold j name ⟨row, syncedAt⟩))
  | forget {f : Fleet V S T} (i j : NodeId) (name : String) :
      Step K hooks f (f.replicate i ((f.roots i).forget j name))

inductive Run (K : DefinitionKind V S) (hooks : NodeId → Resolver V S T) : Fleet V S T → Prop
  | start : Run K hooks .start
  | tail {f f' : Fleet V S T} (prior : Run K hooks f) (step : Step K hooks f f') : Run K hooks f'

end Steps

/-- Rows of `name` that some roots once stored, in any number and order. -/
def IsMix (f : Fleet V S T) (name : String) (mix : List (DefinitionSource V S T)) : Prop :=
  ∀ source ∈ mix, ∃ row, f.sent source.origin name row ∧ source.object = row.stripped

/-! ### The history of a name -/

def stampOf (e : FieldMergeMetadata) : Stamp NodeId := ⟨e.dot, e.seen⟩

/-- The counter the root's own row gives its own writes. -/
def ownCounter (f : Fleet V S T) (name : String) (i : NodeId) : Nat :=
  match (f.roots i).store.objects[name]?.bind fun row => row.metadata.merge with
  | some merge => merge.seen.counter i
  | none => 0

def historyOf (f : Fleet V S T) (name : String) : CausalHistory NodeId where
  vectors := { v | ∃ j row merge, f.sent j name row ∧ row.metadata.merge = some merge ∧
    v = merge.seen }
  stamps := { e | ∃ j row merge path field, f.sent j name row ∧ row.metadata.merge = some merge ∧
    merge.fields[(path : FieldPath)]? = some field ∧ e = stampOf field }
  counter := ownCounter f name

/-- What every row a resolver stored of `name` is like. -/
structure SentRow (K : DefinitionKind V S) (name : String) (row : ResourceObject V S T) : Prop where
  named : row.metadata.name = name
  encodes : ∃ fields, specObject K row.spec = .ok fields
  merge : ∃ merge, row.metadata.merge = some merge ∧
    (∀ (path : FieldPath) (e : FieldMergeMetadata), merge.fields[path]? = some e →
      merge.seen.covers e.dot = true) ∧
    (merge.fields[FieldPath.deleted]?).isSome = true ∧
    ∀ (f : String) (fields : BTreeMap String V), specObject K row.spec = .ok fields → f ∈ fields →
      (merge.fields[FieldPath.spec f]?).isSome = true

/-- The invariant of runs, for one name. -/
structure Sound (K : DefinitionKind V S) (f : Fleet V S T) (name : String) : Prop where
  own : ∀ i row, (f.roots i).store.objects[name]? = some row → f.sent i name row
  held : ∀ i, IsMix f name (replicaSources (f.roots i) name)
  rows : ∀ j row, f.sent j name row → SentRow K name row
  history : (historyOf f name).Consistent

/-! ### What a mix of sent rows looks like -/

section Mix

variable {K : DefinitionKind V S} {f : Fleet V S T} {name : String}
  {mix : List (DefinitionSource V S T)} {path : FieldPath}

/-- A row of the mix accounts for exactly what its vector covers. -/
theorem rowCovers_iff {source : DefinitionSource V S T} {merge : MergeMetadata V}
    (hmerge : source.object.metadata.merge = some merge)
    (hcovers : ∀ (path : FieldPath) (e : FieldMergeMetadata), merge.fields[path]? = some e →
      merge.seen.covers e.dot = true) (dot : CausalDot) :
    RowCovers source dot ↔ merge.seen.covers dot = true := by
  simp only [RowCovers, hmerge]
  constructor
  · rintro (h | ⟨path, e, he, hroot, hle⟩)
    · exact h
    · have hdot : dot = ⟨e.dot.authorRoot, dot.authorCounter⟩ := by rw [← hroot]
      rw [hdot]
      exact VersionVector.covers_of_le (hcovers path e he) hle
  · exact .inl

theorem supersedes_iff {x y : FieldCandidate V} :
    x.supersedes y = true ↔
      Dominates (fun c : FieldCandidate V => (stampOf c.metadata).dot)
        (fun c => (stampOf c.metadata).seen) x y := by
  simp only [FieldCandidate.supersedes, Dominates, stampOf, Bool.and_eq_true, decide_eq_true_eq]

variable [JsonValue V]

/-- A source of a mix has stamps for all it holds, within its own vector. -/
theorem IsMix.source (hs : Sound K f name) (hmix : IsMix f name mix)
    {source : DefinitionSource V S T} (h : source ∈ mix) :
    ∃ row merge, f.sent source.origin name row ∧ source.object = row.stripped ∧
      row.metadata.merge = some merge ∧ source.object.metadata.merge = some merge ∧
      (∀ (path : FieldPath) (e : FieldMergeMetadata), merge.fields[path]? = some e →
        merge.seen.covers e.dot = true) ∧
      ∀ path c, candidateOf K path source = some c → merge.fields[path]? = some c.metadata := by
  obtain ⟨row, hsent, hobject⟩ := hmix source h
  obtain ⟨merge, hmerge, hcovers, hdeleted, hheld⟩ := (hs.rows _ row hsent).merge
  have hsource : source.object.metadata.merge = some merge := by
    rw [hobject]
    exact hmerge
  refine ⟨row, merge, hsent, hobject, hmerge, hsource, hcovers, fun path c hc => ?_⟩
  have hstamped : (merge.fields[path]?).isSome = true ∧ c.metadata = fieldMetadata source path := by
    cases path with
    | deleted =>
      cases hc
      exact ⟨hdeleted, rfl⟩
    | spec g =>
      obtain ⟨hvalue, hmeta⟩ := candidateOf_spec_eq_some.mp hc
      obtain ⟨fields, hfields⟩ := (hs.rows _ row hsent).encodes
      have hspec : specObject K source.object.spec = .ok fields := by
        rw [hobject]
        exact hfields
      rw [specFields, hspec] at hvalue
      refine ⟨hheld g fields hfields ?_, hmeta⟩
      rw [ExtTreeMap.mem_iff_isSome_getElem?]
      exact Option.isSome_iff_exists.mpr ⟨c.value, hvalue⟩
  obtain ⟨hsome, hmeta⟩ := hstamped
  obtain ⟨e, he⟩ := Option.isSome_iff_exists.mp hsome
  rw [hmeta, fieldMetadata, hsource, Option.bind_some, he]
  rfl

theorem IsMix.isJoin (hs : Sound K f name) (hmix : IsMix f name mix) :
    (historyOf f name).IsJoin (causalContext mix) := by
  intro dot hdot
  obtain ⟨source, hsource, hrow⟩ := (covers_causalContext mix dot).mp hdot
  obtain ⟨row, merge, hsent, -, hmerge, hsmerge, hcovers, -⟩ := hmix.source hs hsource
  refine ⟨merge.seen, ⟨_, row, merge, hsent, hmerge, rfl⟩,
    (rowCovers_iff hsmerge hcovers dot).mp hrow, fun d hd => ?_⟩
  exact (covers_causalContext mix d).mpr
    ⟨source, hsource, (rowCovers_iff hsmerge hcovers d).mpr hd⟩

/-- Every candidate's stamp is one of the history, and the context covers it. -/
theorem IsMix.candidate (hs : Sound K f name) (hmix : IsMix f name mix) {c : FieldCandidate V}
    (h : c ∈ orderedCandidates (fieldRows K path mix)) :
    stampOf c.metadata ∈ (historyOf f name).stamps ∧
      (causalContext mix).covers c.metadata.dot = true := by
  obtain ⟨origin, hrow⟩ := mem_orderedCandidates.mp h
  obtain ⟨source, hsource, -, hc⟩ := mem_fieldRows.mp hrow
  obtain ⟨row, merge, hsent, -, hmerge, hsmerge, hcovers, hcand⟩ := hmix.source hs hsource
  have hfield := hcand path c hc
  refine ⟨⟨_, row, merge, path, c.metadata, hsent, hmerge, hfield, rfl⟩, ?_⟩
  exact (covers_causalContext mix _).mpr
    ⟨source, hsource, (rowCovers_iff hsmerge hcovers _).mpr (hcovers path _ hfield)⟩

/-- In a sound mix every held field keeps a candidate. -/
theorem IsMix.survivor (hs : Sound K f name) (hmix : IsMix f name mix)
    (hne : fieldRows K path mix ≠ []) : fieldValues K path mix ≠ [] := by
  have hcands : orderedCandidates (fieldRows K path mix) ≠ [] := by
    obtain ⟨⟨origin, c⟩, hrow⟩ := List.exists_mem_of_ne_nil _ hne
    exact List.ne_nil_of_mem (mem_orderedCandidates.mpr ⟨origin, hrow⟩)
  obtain ⟨x, hx, hmax⟩ := hs.history.exists_undominated
    (fun c => stampOf c.metadata)
    (fun c hc => (hmix.candidate hs hc).1) hcands
  intro hnil
  rw [fieldValues, mergeField_eq_nil] at hnil
  have hmem : x ∈ causallyMaximal (orderedCandidates (fieldRows K path mix)) := by
    refine mem_causallyMaximal.mpr ⟨hx, fun y hy => ?_⟩
    rw [← Bool.not_eq_true, supersedes_iff]
    exact hmax y hy
  rw [hnil] at hmem
  exact absurd hmem List.not_mem_nil

/-- No candidate's author had seen a write that is still shown. -/
theorem IsMix.unseen (hs : Sound K f name) (hmix : IsMix f name mix) {x shown : FieldCandidate V}
    (hx : x ∈ orderedCandidates (fieldRows K path mix)) (hshown : shown ∈ fieldValues K path mix) :
    x.metadata.seen.covers shown.metadata.dot = false := by
  rw [← Bool.not_eq_true]
  intro hcovers
  have hmax := (mem_causallyMaximal.mp (mem_maximal_of_mem_mergeField hshown)).2 x hx
  have hunseen := hs.history.unseen _ (hmix.candidate hs hx).1
  rw [← Bool.not_eq_true, supersedes_iff] at hmax
  refine hmax ⟨fun hdot => ?_, hcovers⟩
  rw [show shown.metadata.dot = x.metadata.dot from hdot.symm] at hcovers
  rw [show x.metadata.seen.covers x.metadata.dot = false from hunseen] at hcovers
  cases hcovers

end Mix

/-! ### Rows a root holds -/

section Held

variable {d : Definitions V S T} {origin : NodeId}

theorem mem_replicaSources {name : String} {source : DefinitionSource V S T} :
    source ∈ replicaSources d name ↔
      ∃ rows row, d.replicas[source.origin]? = some rows ∧ rows[name]? = some row ∧
        source = ⟨row.object.stripped, source.origin, some row.lastSyncedAt⟩ := by
  simp only [replicaSources, List.mem_filterMap, Prod.exists, Option.map_eq_some_iff,
    ExtTreeMap.mem_toList_iff_getElem?_eq_some]
  constructor
  · rintro ⟨origin, rows, hrows, row, hrow, rfl⟩
    exact ⟨rows, row, hrows, hrow, rfl⟩
  · rintro ⟨rows, row, hrows, hrow, hsource⟩
    exact ⟨source.origin, rows, hrows, row, hrow, hsource.symm⟩

/-- After receiving a row a root holds that row or one it held before. -/
theorem mem_replicaSources_hold {name other : String} {row : ReplicaRow V S T}
    {source : DefinitionSource V S T} (h : source ∈ replicaSources (d.hold origin name row) other) :
    source ∈ replicaSources d other ∨
      (other = name ∧ source.origin = origin ∧ source.object = row.object.stripped) := by
  obtain ⟨rows, held, hrows, hheld, hsource⟩ := mem_replicaSources.mp h
  simp only [Definitions.hold, ExtTreeMap.getElem?_insert, Std.compare_eq_iff_eq] at hrows
  by_cases horigin : origin = source.origin
  · rw [if_pos horigin] at hrows
    obtain rfl := Option.some.inj hrows
    rcases BTreeMap.of_lookup_insert hheld with ⟨hname, rfl⟩ | ⟨-, hheld⟩
    · exact Or.inr ⟨hname.symm, horigin.symm, by rw [hsource]⟩
    · refine Or.inl (mem_replicaSources.mpr ?_)
      cases hold : d.replicas[origin]? with
      | none =>
        rw [hold] at hheld
        simp at hheld
      | some old =>
        rw [hold] at hheld
        exact ⟨old, held, by rw [← horigin, hold], hheld, hsource⟩
  · rw [if_neg horigin] at hrows
    exact Or.inl (mem_replicaSources.mpr ⟨rows, held, hrows, hheld, hsource⟩)

/-- Forgetting a row leaves rows held before. -/
theorem mem_replicaSources_forget {name other : String} {source : DefinitionSource V S T}
    (h : source ∈ replicaSources (d.forget origin name) other) :
    source ∈ replicaSources d other := by
  obtain ⟨rows, held, hrows, hheld, hsource⟩ := mem_replicaSources.mp h
  simp only [Definitions.forget, ExtTreeMap.getElem?_modify, Std.compare_eq_iff_eq] at hrows
  by_cases horigin : origin = source.origin
  · rw [if_pos horigin, Option.map_eq_some_iff] at hrows
    obtain ⟨old, hold, rfl⟩ := hrows
    exact mem_replicaSources.mpr ⟨old, held, by rw [← horigin]; exact hold,
      (BTreeMap.of_lookup_erase hheld).2, hsource⟩
  · rw [if_neg horigin] at hrows
    exact mem_replicaSources.mpr ⟨rows, held, hrows, hheld, hsource⟩

end Held

/-! ### Steps keep the invariant -/

section Preserved

variable {K : DefinitionKind V S} {hooks : NodeId → Resolver V S T} {f f' : Fleet V S T}
  {name : String} {i : NodeId} {d : Definitions V S T} {now : Timestamp} {writer : WriterIdentity}

theorem IsMix.mono {mix : List (DefinitionSource V S T)} (hmix : IsMix f name mix)
    (h : ∀ j row, f.sent j name row → f'.sent j name row) : IsMix f' name mix := by
  intro source hsource
  obtain ⟨row, hsent, hobject⟩ := hmix source hsource
  exact ⟨row, h _ row hsent, hobject⟩

/-- What a root reads is a mix of sent rows. -/
theorem Sound.sources (hs : Sound K f name) (hooks : NodeId → Resolver V S T) (i : NodeId) :
    IsMix f name (sourcesForName (site K hooks i) (f.roots i) name) := by
  refine List.forall_mem_append.mpr ⟨fun source hlocal => ?_, hs.held i⟩
  rw [Option.mem_toList, localSource, Option.map_eq_some_iff] at hlocal
  obtain ⟨row, hrow, rfl⟩ := hlocal
  exact ⟨row, hs.own i row hrow, rfl⟩

/-- Nothing happened to the name. -/
theorem Sound.frame (hs : Sound K f name)
    (hsent : ∀ j row, f'.sent j name row ↔ f.sent j name row)
    (hown : ∀ j, (f'.roots j).store.objects[name]? = (f.roots j).store.objects[name]?)
    (hheld : ∀ j, IsMix f name (replicaSources (f'.roots j) name)) : Sound K f' name where
  own j row hrow := by
    rw [hown] at hrow
    exact (hsent j row).mpr (hs.own j row hrow)
  held j := (hheld j).mono fun k row => (hsent k row).mpr
  rows j row hrow := hs.rows j row ((hsent j row).mp hrow)
  history := by
    have hcounter : ownCounter f' name = ownCounter f name := by
      funext j
      rw [ownCounter, hown]
      rfl
    have hsame : historyOf f' name = historyOf f name := by
      simp only [historyOf, hsent, hcounter]
    rw [hsame]
    exact hs.history

/-- One root changed, and kept its own row of the name. -/
theorem Sound.update (hs : Sound K f name) (hroots : f'.roots = Function.update f.roots i d)
    (hsent : ∀ j row, f'.sent j name row ↔ f.sent j name row)
    (hown : d.store.objects[name]? = (f.roots i).store.objects[name]?)
    (hheld : IsMix f name (replicaSources d name)) : Sound K f' name := by
  refine hs.frame hsent (fun j => ?_) (fun j => ?_) <;>
    rw [hroots, Function.update_apply] <;> by_cases hj : j = i
  · rw [if_pos hj, hj, hown]
  · rw [if_neg hj]
  · rw [if_pos hj]
    exact hheld
  · rw [if_neg hj]
    exact hs.held j

/-- A root stored something, but not of this name. -/
theorem Sound.store_frame (hs : Sound K f name) (hreplicas : d.replicas = (f.roots i).replicas)
    (hobjects : d.store.objects[name]? = (f.roots i).store.objects[name]?) :
    Sound K (f.store i d) name := by
  refine hs.update rfl (fun j row => ⟨?_, .inl⟩) hobjects ?_
  · rintro (hsent | ⟨rfl, hrow⟩)
    · exact hsent
    · rw [hobjects] at hrow
      exact hs.own j row hrow
  · rw [replicaSources, hreplicas]
    exact hs.held i

theorem Sound.ownRowNamed (hs : Sound K f name) (i : NodeId) : OwnRowNamed (f.roots i) name :=
  fun row hrow => (hs.rows i row (hs.own i row hrow)).named

theorem Sound.replicate (hs : Sound K f name) (hstore : d.store = (f.roots i).store)
    (hheld : IsMix f name (replicaSources d name)) : Sound K (f.replicate i d) name :=
  hs.update rfl (fun _ _ => Iff.rfl) (by rw [hstore]) hheld

theorem sound_start (K : DefinitionKind V S) (name : String) :
    Sound K (Fleet.start : Fleet V S T) name := by
  refine ⟨fun i row hrow => ?_, fun i source hsource => ?_, fun j row hsent => hsent.elim, ?_⟩
  · simp [Fleet.start] at hrow
  · obtain ⟨rows, row, hrows, -, -⟩ := mem_replicaSources.mp hsource
    simp [Fleet.start] at hrows
  · have hcounter : ownCounter (Fleet.start : Fleet V S T) name = fun _ => 0 := by
      funext j
      simp [ownCounter, Fleet.start]
    have hempty : historyOf (Fleet.start : Fleet V S T) name = CausalHistory.empty := by
      simp only [historyOf, hcounter]
      simp [Fleet.start, CausalHistory.empty]
    rw [hempty]
    exact CausalHistory.consistent_empty

variable [JsonValue V]

/-- The counter a root's next write reads is the one its own row carries. -/
theorem Sound.ownContext_eq (hs : Sound K f name) (hooks : NodeId → Resolver V S T) (i : NodeId) :
    ownContext K hooks f i name = ownCounter f name i := by
  have hmix := hs.sources hooks i
  refine Nat.le_antisymm (hs.history.bounded_join (hmix.isJoin hs) i) ?_
  unfold ownCounter
  cases hrow : (f.roots i).store.objects[name]? with
  | none => exact Nat.zero_le _
  | some row =>
    have hmem : (⟨row.stripped, i, none⟩ : DefinitionSource V S T) ∈
        sourcesForName (site K hooks i) (f.roots i) name := by
      refine List.mem_append.mpr (Or.inl ?_)
      rw [localSource, hrow]
      exact List.mem_singleton_self _
    obtain ⟨row', merge, -, hobject, hmerge, hsmerge, hcovers, -⟩ := hmix.source hs hmem
    have hown : row.metadata.merge = some merge := hsmerge
    simp only [Option.bind_some, hown]
    by_cases hpos : 0 < merge.seen.counter i
    · refine VersionVector.le_counter_of_covers ((covers_causalContext _ ⟨i, _⟩).mpr
        ⟨_, hmem, (rowCovers_iff hsmerge hcovers _).mpr (VersionVector.covers_counter hpos)⟩)
    · omega

/-- A root rewrote its own row of the name: one honest write of its history. -/
theorem Sound.store_author (hs : Sound K f name) {row : ResourceObject V S T}
    (hcounter : ownContext K hooks f i name < u64Max)
    (hreplicas : d.replicas = (f.roots i).replicas) (hrow : d.store.objects[name]? = some row)
    (hstamped : StampedRow K (sourcesForName (site K hooks i) (f.roots i) name)
      (nextStamp i (causalContext (sourcesForName (site K hooks i) (f.roots i) name)) writer now)
      name row) : Sound K (f.store i d) name := by
  have hmix := hs.sources hooks i
  have hjoin := hmix.isJoin hs
  have hown := hs.ownContext_eq hooks i
  obtain ⟨merge, hmerge, hstamps⟩ := hstamped.merge
  unfold ownContext at hcounter hown
  set context := causalContext (sourcesForName (site K hooks i) (f.roots i) name) with hcontext
  have hnext : saturatingAdd (context.counter i) 1 = context.counter i + 1 := by
    unfold saturatingAdd
    omega
  have hseen : merge.seen = CausalHistory.nextVector i context := by
    rw [hstamps.seen, CausalHistory.nextVector, ← hnext]
    rfl
  have hstamp : stampOf (nextStamp i context writer now) = CausalHistory.nextStamp i context := by
    rw [CausalHistory.nextStamp, ← hnext]
    rfl
  have hsentRow : SentRow K name row := by
    refine ⟨hstamped.named, hstamped.encodes, merge, hmerge, fun path e he => ?_, ?_, hstamps.held⟩
    · rw [hseen]
      rcases hstamps.chosen path e he with rfl | ⟨c, hc, rfl⟩
      · have hdot := congrArg Stamp.dot hstamp
        rw [show (nextStamp i context writer now).dot = _ from hdot]
        exact VersionVector.covers_insert_self _ _ _
      · refine VersionVector.le_insert_succ context i _ ?_
        exact (hmix.candidate hs (mem_causallyMaximal.mp (mem_maximal_of_mem_mergeField hc)).1).2
    · rw [hstamps.deleted]
      rfl
  have hroots : ∀ j, (f.store i d).roots j = if j = i then d else f.roots j := by
    intro j
    exact Function.update_apply f.roots i d j
  refine ⟨fun j row' hrow' => ?_, fun j => ?_, ?_, ?_⟩
  · rw [hroots] at hrow'
    by_cases hj : j = i
    · rw [if_pos hj] at hrow'
      exact .inr ⟨hj, hrow'⟩
    · rw [if_neg hj] at hrow'
      exact .inl (hs.own j row' hrow')
  · rw [hroots]
    refine IsMix.mono ?_ fun _ _ => .inl
    by_cases hj : j = i
    · rw [if_pos hj, replicaSources, hreplicas]
      exact hs.held i
    · rw [if_neg hj]
      exact hs.held j
  · rintro j row' (hsent | ⟨rfl, hrow'⟩)
    · exact hs.rows j row' hsent
    · rw [hrow] at hrow'
      cases hrow'
      exact hsentRow
  · refine hs.history.author hjoin hown ?_ ?_ ?_
    · rintro v ⟨j, row', merge', hsent | ⟨rfl, hrow'⟩, hmerge', rfl⟩
      · exact .inl ⟨j, row', merge', hsent, hmerge', rfl⟩
      · rw [hrow] at hrow'
        cases hrow'
        rw [hmerge] at hmerge'
        cases hmerge'
        exact .inr hseen
    · rintro e ⟨j, row', merge', path, field, hsent | ⟨rfl, hrow'⟩, hmerge', hfield, rfl⟩
      · exact .inl ⟨j, row', merge', path, field, hsent, hmerge', hfield, rfl⟩
      · rw [hrow] at hrow'
        cases hrow'
        rw [hmerge] at hmerge'
        cases hmerge'
        rcases hstamps.chosen path field hfield with rfl | ⟨c, hc, rfl⟩
        · exact .inr hstamp
        · exact .inl
            (hmix.candidate hs (mem_causallyMaximal.mp (mem_maximal_of_mem_mergeField hc)).1).1
    · funext j
      show ownCounter (f.store i d) name j = _
      rw [ownCounter, hroots, Function.update_apply]
      by_cases hj : j = i
      · subst hj
        rw [if_pos rfl, if_pos rfl, hrow, Option.bind_some, hmerge]
        show VersionVector.counter merge.seen j = _
        rw [hseen, CausalHistory.nextVector, VersionVector.counter_insert, if_pos rfl, hown]
        rfl
      · rw [if_neg hj, if_neg hj]
        rfl

/-- A write of `written` keeps the invariant of every name. -/
theorem sound_of_rewritesRow (hs : ∀ name, Sound K f name) {written : String}
    (hcounter : ownContext K hooks f i written < u64Max)
    (h : RewritesRow (site K hooks i) (f.roots i) written
      (nextStamp i (causalContext (sourcesForName (site K hooks i) (f.roots i) written)) writer now)
      d) (name : String) : Sound K (f.store i d) name := by
  obtain ⟨hreplicas, hobjects | ⟨hothers, row, hrow, hstamped⟩⟩ := h
  · exact (hs name).store_frame hreplicas (by rw [hobjects])
  · by_cases hname : name = written
    · subst hname
      exact (hs name).store_author hcounter hreplicas hrow hstamped
    · exact (hs name).store_frame hreplicas (hothers name hname)

variable [DecidableEq V]

/-- **Every step keeps the invariant.** -/
theorem sound_step (hs : ∀ name, Sound K f name) (hstep : Step K hooks f f') (name : String) :
    Sound K f' name := by
  cases hstep with
  | apply i writer input spec now createdAt hcounter =>
    exact sound_of_rewritesRow hs hcounter
      (applyAs_rows ((hs input.name).ownRowNamed i) writer spec now createdAt) name
  | delete i written now createdAt hcounter =>
    refine sound_of_rewritesRow hs hcounter
      (delete_rows ((hs written).ownRowNamed i) (fun source hsource => ?_) now createdAt) name
    obtain ⟨row, hsent, hobject⟩ := (hs written).sources hooks i source hsource
    rw [hobject]
    exact ((hs written).rows _ row hsent).named
  | receive i j received row syncedAt hsent =>
    refine (hs name).replicate rfl fun source hsource => ?_
    rcases mem_replicaSources_hold hsource with hold | ⟨rfl, rfl, hobject⟩
    · exact (hs name).held i source hold
    · exact ⟨row, hsent, hobject⟩
  | forget i j forgotten =>
    exact (hs name).replicate rfl fun source hsource =>
      (hs name).held i source (mem_replicaSources_forget hsource)

/-- **Every run is sound.** -/
theorem sound_run (h : Run K hooks f) : ∀ name, Sound K f name := by
  induction h with
  | start => exact sound_start K
  | tail prior step ih => exact sound_step ih step

end Preserved

/-! ### Merging after any run -/

variable [JsonValue V] [DecidableEq V]

/-- **Causal metadata.**  In every run, a row that a root stored has seen the write of each field it
holds and all that the write's author had seen; no author had seen its own write; and nobody has
heard of more writes of a root than that root made. -/
theorem run_causal {K : DefinitionKind V S} {hooks : NodeId → Resolver V S T} {f : Fleet V S T}
    (hrun : Run K hooks f) {name : String} {j : NodeId} {row : ResourceObject V S T}
    (hsent : f.sent j name row)
    {merge : MergeMetadata V} (hmerge : row.metadata.merge = some merge) :
    (∀ (path : FieldPath) (field : FieldMergeMetadata), merge.fields[path]? = some field →
      merge.seen.covers field.dot = true ∧ field.seen.covers field.dot = false ∧
      ∀ dot, field.seen.covers dot = true → merge.seen.covers dot = true) ∧
    ∀ root, merge.seen.counter root ≤ ownCounter f name root := by
  have hs := sound_run hrun name
  have hvector : merge.seen ∈ (historyOf f name).vectors := ⟨j, row, merge, hsent, hmerge, rfl⟩
  refine ⟨fun path field hfield => ?_, hs.history.bounded _ hvector⟩
  have hstamp : stampOf field ∈ (historyOf f name).stamps :=
    ⟨j, row, merge, path, field, hsent, hmerge, hfield, rfl⟩
  obtain ⟨merge', hmerge', hcovers, -⟩ := (hs.rows j row hsent).merge
  cases hmerge.symm.trans hmerge'
  have hseen := hcovers path field hfield
  exact ⟨hseen, hs.history.unseen _ hstamp, hs.history.closed _ hvector _ hstamp hseen⟩

section Layers

def rustLayer : ImageLayerSpec where
  name := "rust"
  version := "1.0"
  tier := .shared
  source := .installation
  fragment := "FROM $\x7bBASE\x7d"
  probe := "true"

def layerInput : InputMeta := { name := "rust" }

/-- `a` declares a layer. -/
def declared : Fleet Json ImageLayerResourceSpec Unit :=
  Fleet.start.store "a" (applyAs (site imageLayer imageLayerResolver "a") {} { role := .operator }
    layerInput (.current rustLayer) 100 100).1

def declaredRow : ResourceObject Json ImageLayerResourceSpec Unit :=
  ((declared.roots "a").store.objects["rust"]?).getD
    { metadata := { name := "", ns := "", resourceVersion := "", creationTimestamp := 0 }
      spec := .retired, status := none }

def received : Fleet Json ImageLayerResourceSpec Unit :=
  declared.replicate "b" ((declared.roots "b").hold "a" "rust" ⟨declaredRow, 120⟩)

/-- `b`, holding `a`'s layer, applies its retirement. -/
def retiredLayer : Fleet Json ImageLayerResourceSpec Unit :=
  received.store "b" (applyAs (site imageLayer imageLayerResolver "b") (received.roots "b")
    { role := .operator } layerInput .retired 200 200).1

theorem declaredRow_sent : declared.sent "a" "rust" declaredRow := by
  refine .inr ⟨rfl, ?_⟩
  have hsome : ((declared.roots "a").store.objects["rust"]?).isSome = true := by decide +kernel
  obtain ⟨row, hrow⟩ := Option.isSome_iff_exists.mp hsome
  rw [declaredRow, hrow]
  exact hrow

theorem run_retiredLayer : Run imageLayer imageLayerResolver retiredLayer := by
  have hdeclared : Step imageLayer imageLayerResolver Fleet.start declared :=
    Step.apply "a" { role := .operator } layerInput (ImageLayerResourceSpec.current rustLayer)
      100 100 (by decide +kernel)
  have hreceived : Step imageLayer imageLayerResolver declared received :=
    Step.receive "b" "a" "rust" declaredRow 120 declaredRow_sent
  have hretired : Step imageLayer imageLayerResolver received retiredLayer :=
    Step.apply "b" { role := .operator } layerInput ImageLayerResourceSpec.retired
      200 200 (by decide +kernel)
  exact .tail (.tail (.tail .start hdeclared) hreceived) hretired

theorem run_causal_retired :
    ∃ row merge, (retiredLayer.roots "b").store.objects["rust"]? = some row ∧
      row.metadata.merge = some merge ∧
      ∀ root, merge.seen.counter root ≤ ownCounter retiredLayer "rust" root := by
  have hsome : ((retiredLayer.roots "b").store.objects["rust"]?).isSome = true := by decide +kernel
  obtain ⟨row, hrow⟩ := Option.isSome_iff_exists.mp hsome
  have hs := sound_run run_retiredLayer "rust"
  have hsent := hs.own "b" row hrow
  obtain ⟨merge, hmerge, -⟩ := (hs.rows "b" row hsent).merge
  exact ⟨row, merge, hrow, hmerge, (run_causal run_retiredLayer hsent hmerge).2⟩

end Layers

end Flotilla.Definition
