import Flotilla.Resource
import Flotilla.Engine.Records

/-!
# The state-machine engine

A machine declares its labels, edges and ends; a home is the single writer of
its resources.  An edge is applied in a fixed order: the end check, the label it
must leave, the gate, the effect, and then the checks of what the effect did
against the edge's declaration.  The home tries the effect's record writes, hands
the write to its log, and only then changes the resource.

* `Machine.step_eq_verdict` : a machine whose effects keep to their declarations
  (`Machine.Sound`) never faults, so that a step is the end check, the label
  check, the gate and the effect.
* `Applied`, `Run` : what one accepted edge makes of a resource, and a sequence
  of them.
* `Home.exists_run` : whatever is asked of a home, and whatever its log refuses,
  every resource it holds was admitted and then changed by accepted edges only.

Recorded reads, read versions and masters are left out: nothing here decides by
them.
-/

namespace Flotilla.Engine

open Lib

/-! ### What a machine declares -/

/-- A state: a label, and the named data it carries. -/
class StateValue (State : Type) (Label Datum : outParam Type) where
  label : State → Label
  data : State → List (String × Datum)

/-- A write to the records of a spec. -/
class RecordWrite (Write Spec : Type) where
  field : Write → String
  apply : Write → Spec → Nat → Except RecordsFull Spec

/-- A machine whose spec holds no records has no writes. -/
instance noRecords {Spec : Type} : RecordWrite Empty Spec where
  field := Empty.elim
  apply write _ _ := write.elim

/-- What a gate or an effect sees besides the argument of its edge. -/
structure Handle (Spec State World : Type) where
  name : String
  spec : Spec
  state : State
  world : World
  now : Timestamp

/-- One declared edge, at its argument.  An ungated edge has the gate that allows. -/
structure DeclaredEdge (Spec State Label World Write Refusal : Type) where
  fromLabels : List Label
  toLabels : List Label
  changes : List String := []
  writes : List String := []
  gate : Handle Spec State World → Except Refusal Unit := fun _ => .ok ()
  /-- The next state, and the record writes made on the way. -/
  effect : Handle Spec State World → State × List Write

/-- A machine: its declaration, how the engine's own refusals read as its own, and admission.
Every edge has a declaration, as `MachineDef::validate` demands. -/
structure Machine (Request Spec State Label Edge World Write Refusal : Type) where
  initial : Label
  edge : Edge → DeclaredEdge Spec State Label World Write Refusal
  ends : List (Label × String)
  ended : Label → String → Refusal
  wrongState : Label → Edge → Refusal
  /-- `Machine::admit`. -/
  admits : World → Timestamp → Request → Except Refusal (Spec × State)

/-- A declaration fault found while stepping or admitting. -/
inductive Fault (Label Edge : Type) where
  | target (edge : Edge) (target : Label)
  | changes (edge : Edge) (data : List String)
  | writes (edge : Edge) (fields : List String)
  | initial (state : Label)

/-- Why a write did not happen. -/
inductive WriteError (Label Edge Refusal : Type) where
  | unknown (name : String)
  | existing (name : String)
  | refused (refusal : Refusal)
  | fault (fault : Fault Label Edge)
  | log (message : String)

variable {Request Spec State Label Datum Edge World Write Refusal : Type}
variable [StateValue State Label Datum] [DecidableEq Label] [DecidableEq Datum]
variable [RecordWrite Write Spec]

open StateValue (label data)

/-- The data a move changes: what `next` carries that `previous` lacks or holds with another
value. -/
def changed (previous next : State) : BTreeSet String :=
  Std.ExtTreeSet.ofList
    (((data next).filter fun datum => datum ∉ data previous).map Prod.fst) compare

/-! ### One step -/

namespace Machine

variable (m : Machine Request Spec State Label Edge World Write Refusal)

def endReason (at_ : Label) : Option String :=
  (m.ends.find? fun ending => ending.1 = at_).map Prod.snd

def endCheck (at_ : Label) : Except Refusal Unit :=
  match m.endReason at_ with
  | some reason => .error (m.ended at_ reason)
  | none => .ok ()

/-- The end check, the label check, the gate and the effect, in the engine's order. -/
def verdict (h : Handle Spec State World) (edge : Edge) : Except Refusal (State × List Write) := do
  m.endCheck (label h.state)
  refuseIf (label h.state ∉ (m.edge edge).fromLabels) (m.wrongState (label h.state) edge)
  (m.edge edge).gate h
  return (m.edge edge).effect h

/-- The fields of an effect's writes that its edge does not declare. -/
def strayWrites (edge : Edge) (writes : List Write) : List String :=
  (writes.map (RecordWrite.field Spec)).filter fun field => field ∉ (m.edge edge).writes

/-- The data of an effect's next state that its edge does not declare to change. -/
def strayData (edge : Edge) (previous next : State) : List String :=
  (changed previous next).toList.filter fun name => name ∉ (m.edge edge).changes

/-- `MachineDef::step`. -/
def step (h : Handle Spec State World) (edge : Edge) :
    Except (WriteError Label Edge Refusal) (State × List Write) := do
  let moved ← (m.verdict h edge).mapError .refused
  refuseIf (m.strayWrites edge moved.2 ≠ []) (.fault (.writes edge (m.strayWrites edge moved.2)))
  refuseIf (label moved.1 ∉ (m.edge edge).toLabels) (.fault (.target edge (label moved.1)))
  refuseIf (m.strayData edge h.state moved.1 ≠ [])
    (.fault (.changes edge (m.strayData edge h.state moved.1)))
  return moved

/-- **Every effect keeps to its edge's declaration.** -/
structure Sound : Prop where
  writes : ∀ h edge moved, m.verdict h edge = .ok moved →
    ∀ write ∈ moved.2, RecordWrite.field Spec write ∈ (m.edge edge).writes
  target : ∀ h edge moved, m.verdict h edge = .ok moved →
    label moved.1 ∈ (m.edge edge).toLabels
  changes : ∀ h edge moved, m.verdict h edge = .ok moved →
    ∀ datum ∈ data moved.1, datum ∉ data h.state → datum.1 ∈ (m.edge edge).changes

variable {m}
  {edge : Edge} {h : Handle Spec State World} {moved : State × List Write}

omit [DecidableEq Datum] [RecordWrite Write Spec] in
theorem verdict_eq_ok (hv : m.verdict h edge = .ok moved) :
    m.endReason (label h.state) = none ∧ label h.state ∈ (m.edge edge).fromLabels ∧
      (m.edge edge).gate h = .ok () ∧ moved = (m.edge edge).effect h := by
  obtain ⟨⟨⟩, hend, hv⟩ := bind_eq_ok hv
  obtain ⟨hfrom, hv⟩ := of_refuseIf hv
  obtain ⟨⟨⟩, hgate, hv⟩ := bind_eq_ok hv
  cases hv
  refine ⟨?_, not_not.mp hfrom, hgate, rfl⟩
  rw [endCheck] at hend
  cases hreason : m.endReason (label h.state) with
  | none => rfl
  | some reason =>
    rw [hreason] at hend
    cases hend

omit [DecidableEq Datum] [RecordWrite Write Spec] in
theorem verdict_of_gate (hend : m.endReason (label h.state) = none)
    (hfrom : label h.state ∈ (m.edge edge).fromLabels) (hgate : (m.edge edge).gate h = .ok ()) :
    m.verdict h edge = .ok ((m.edge edge).effect h) := by
  rw [verdict, endCheck, hend]
  refine (refuseIf_bind (not_not.mpr hfrom)).trans ?_
  rw [hgate]
  rfl

theorem Sound.step_ok (hm : m.Sound) (hv : m.verdict h edge = .ok moved) :
    m.step h edge = .ok moved := by
  have hwrites : ¬ m.strayWrites edge moved.2 ≠ [] := by
    rw [not_not, strayWrites, List.filter_eq_nil_iff]
    intro field hfield
    obtain ⟨write, hwrite, rfl⟩ := List.mem_map.mp hfield
    simpa using hm.writes h edge moved hv write hwrite
  have hdata : ¬ m.strayData edge h.state moved.1 ≠ [] := by
    rw [not_not, strayData, List.filter_eq_nil_iff]
    intro name hname
    simp only [changed, Std.ExtTreeSet.mem_toList, Std.ExtTreeSet.mem_ofList,
      List.contains_iff_mem, List.mem_map, List.mem_filter, decide_eq_true_eq] at hname
    obtain ⟨datum, ⟨hnext, hprevious⟩, rfl⟩ := hname
    simpa using hm.changes h edge moved hv datum hnext hprevious
  rw [step, hv]
  refine (refuseIf_bind hwrites).trans ((refuseIf_bind ?_).trans (refuseIf_bind hdata))
  exact fun htarget => htarget (hm.target h edge moved hv)

/-- **A sound machine never faults.** -/
theorem Sound.step_eq_verdict (hm : m.Sound) :
    m.step h edge = (m.verdict h edge).mapError .refused := by
  cases hv : m.verdict h edge with
  | error refusal => rw [step, hv]; rfl
  | ok moved => exact hm.step_ok hv

end Machine

/-! ### Resources and their home -/

/-- One resource at its home. -/
structure Resource (Spec State : Type) where
  name : String
  spec : Spec
  state : State
  /-- When the current label was entered. -/
  since : Timestamp
  version : Nat

/-- `Handle::on`. -/
def Resource.handle (resource : Resource Spec State) (world : World) (now : Timestamp) :
    Handle Spec State World :=
  { name := resource.name, spec := resource.spec, state := resource.state, world, now }

/-- The spec after the writes, each row they append stamped with `version`. -/
def applyWrites (writes : List Write) (spec : Spec) (version : Nat) : Except RecordsFull Spec :=
  writes.foldlM (fun spec write => RecordWrite.apply write spec version) spec

/-- The spec after the writes, a write that does not fit being dropped. -/
def commitWrites (writes : List Write) (spec : Spec) (version : Nat) : Spec :=
  writes.foldl (fun spec write => (RecordWrite.apply write spec version).toOption.getD spec) spec

/-- What the home decides before it asks its log: the step, and that the writes fit. -/
def Machine.decide (m : Machine Request Spec State Label Edge World Write Refusal)
    (resource : Resource Spec State) (edge : Edge) (world : World) (now : Timestamp) :
    Except (WriteError Label Edge Refusal) (State × List Write) := do
  let moved ← m.step (resource.handle world now) edge
  let _ ← (applyWrites moved.2 resource.spec 0).mapError fun error => .log error.render
  return moved

/-- When the next state's label was entered. -/
def Resource.sinceOf (resource : Resource Spec State) (next : State) (now : Timestamp) :
    Timestamp :=
  if label resource.state = label next then resource.since else now

/-- The resource once its log has taken the edge as `version`. -/
def Resource.commit (resource : Resource Spec State) (moved : State × List Write)
    (version : Nat) (now : Timestamp) : Resource Spec State where
  name := resource.name
  spec := commitWrites moved.2 resource.spec version
  state := moved.1
  since := resource.sinceOf moved.1 now
  version := version

/-- One applied edge, as the log's entry records it. -/
structure EdgeEvent (Label Edge : Type) where
  edge : Edge
  fromLabel : Label
  toLabel : Label
  at_ : Timestamp

/-- A log: it takes each create and edge and gives it a version, or refuses it.  `L` is its own
state. -/
structure Log (L Spec State Label Edge Write : Type) where
  create : L → Resource Spec State → Except String Nat × L
  edgeWithWrites : L → (previous next : Resource Spec State) → EdgeEvent Label Edge →
    List Write → Except String Nat × L

/-- `Log::create_resource` of a log that does not override it: the resource as admitted, at the
version the log gave. -/
def Log.createResource {L : Type} (log : Log L Spec State Label Edge Write) (l : L)
    (resource : Resource Spec State) : Except String (Resource Spec State) × L :=
  match log.create l resource with
  | (.error message, l) => (.error message, l)
  | (.ok version, l) => (.ok { resource with version }, l)

/-- The single writer of one machine's resources. -/
structure Home (L Spec State : Type) where
  resources : BTreeMap String (Resource Spec State)
  log : L

/-- What a home is asked to do. -/
inductive Call (Request Edge World : Type) where
  | create (name : String) (request : Request) (world : World) (now : Timestamp)
  | apply (name : String) (edge : Edge) (world : World) (now : Timestamp)

namespace Home

variable {L : Type} (m : Machine Request Spec State Label Edge World Write Refusal)
  (log : Log L Spec State Label Edge Write) (home : Home L Spec State)

/-- `Home::create`, with the log's own `create_resource`. -/
def createWith (createResource : L → Resource Spec State → Except String (Resource Spec State) × L)
    (name : String) (request : Request) (world : World) (now : Timestamp) :
    Except (WriteError Label Edge Refusal) (Resource Spec State) × Home L Spec State :=
  match home.resources[name]? with
  | some _ => (.error (.existing name), home)
  | none =>
    match m.admits world now request with
    | .error refusal => (.error (.refused refusal), home)
    | .ok (spec, state) =>
      if label state ≠ m.initial then (.error (.fault (.initial (label state))), home)
      else
        match createResource home.log { name, spec, state, since := now, version := 0 } with
        | (.error message, log) => (.error (.log message), { home with log })
        | (.ok resource, log) =>
          (.ok resource, { resources := home.resources.insert name resource, log })

/-- `Home::create` over a log with the default `create_resource`. -/
def create := home.createWith m log.createResource

/-- `Home::apply`. -/
def apply (name : String) (edge : Edge) (world : World) (now : Timestamp) :
    Except (WriteError Label Edge Refusal) (EdgeEvent Label Edge) × Home L Spec State :=
  match home.resources[name]? with
  | none => (.error (.unknown name), home)
  | some resource =>
    match m.decide resource edge world now with
    | .error error => (.error error, home)
    | .ok moved =>
      let next := { resource with state := moved.1, since := resource.sinceOf moved.1 now }
      let event : EdgeEvent Label Edge :=
        { edge, fromLabel := label resource.state, toLabel := label moved.1, at_ := now }
      match log.edgeWithWrites home.log resource next event moved.2 with
      | (.error message, log) => (.error (.log message), { home with log })
      | (.ok version, log) =>
        (.ok event,
          { resources := home.resources.insert name (resource.commit moved version now), log })

def call : Call Request Edge World → Home L Spec State
  | .create name request world now => (home.create m log name request world now).2
  | .apply name edge world now => (home.apply m log name edge world now).2

/-- A home with no resources, after the calls. -/
def run (l : L) (calls : List (Call Request Edge World)) : Home L Spec State :=
  calls.foldl (call m log) ⟨∅, l⟩

end Home

/-! ### Runs -/

variable (m : Machine Request Spec State Label Edge World Write Refusal)

/-- A resource as its creation left it. -/
inductive Admitted (request : Request) : Resource Spec State → Prop where
  | intro (name : String) (world : World) (now : Timestamp) (version : Nat) (spec : Spec)
      (state : State) (hadmits : m.admits world now request = .ok (spec, state))
      (hlabel : label state = m.initial) :
      Admitted request { name, spec, state, since := now, version }

/-- What an accepted edge makes of a resource, at some time and in some world. -/
inductive Applied (resource : Resource Spec State) (edge : Edge) : Resource Spec State → Prop where
  | intro (world : World) (now : Timestamp) (version : Nat) (moved : State × List Write)
      (h : m.decide resource edge world now = .ok moved) :
      Applied resource edge (resource.commit moved version now)

/-- A sequence of accepted edges, each allowed where it was applied. -/
inductive Run (allowed : Resource Spec State → Edge → Prop) (start : Resource Spec State) :
    List Edge → Resource Spec State → Prop where
  | nil : Run allowed start [] start
  | snoc {edges : List Edge} {edge : Edge} {r r' : Resource Spec State}
      (run : Run allowed start edges r) (hallowed : allowed r edge)
      (happlied : Applied m r edge r') :
      Run allowed start (edges ++ [edge]) r'

/-- Every edge is allowed anywhere. -/
def anywhere (_ : Resource Spec State) (_ : Edge) : Prop := True

variable {m}

/-- **What a start satisfies and every edge keeps holds throughout a run.** -/
theorem Run.invariant {allowed : Resource Spec State → Edge → Prop}
    {start r : Resource Spec State} {edges : List Edge} (run : Run m allowed start edges r)
    {P : Resource Spec State → Prop} (hstart : P start)
    (hstep : ∀ r edge r', P r → allowed r edge → Applied m r edge r' → P r') : P r := by
  induction run with
  | nil => exact hstart
  | snoc _ hallowed happlied ih => exact hstep _ _ _ ih hallowed happlied

theorem Applied.verdict (hm : m.Sound) {r r' : Resource Spec State} {edge : Edge}
    (h : Applied m r edge r') :
    ∃ world now version moved spec, m.verdict (r.handle world now) edge = .ok moved ∧
      applyWrites moved.2 r.spec 0 = .ok spec ∧ r' = r.commit moved version now := by
  obtain ⟨world, now, version, moved, h⟩ := h
  obtain ⟨moved', hstep, h⟩ := bind_eq_ok h
  obtain ⟨spec, hwrites, h⟩ := bind_eq_ok h
  cases h
  rw [hm.step_eq_verdict] at hstep
  exact ⟨world, now, version, moved, spec, mapError_eq_ok hstep, mapError_eq_ok hwrites, rfl⟩

/-! ### Machines without records -/

section NoWrites

variable {m : Machine Request Spec State Label Edge World Empty Refusal}

omit [DecidableEq Datum] in
theorem commit_spec_of_empty (r : Resource Spec State) (moved : State × List Empty)
    (version : Nat) (now : Timestamp) : (r.commit moved version now).spec = r.spec := by
  obtain ⟨state, writes⟩ := moved
  cases writes with
  | nil => rfl
  | cons write writes => exact write.elim

/-- Without records, a home decides by the verdict alone. -/
theorem Machine.Sound.decide_eq (hm : m.Sound) (r : Resource Spec State) (edge : Edge)
    (world : World) (now : Timestamp) :
    m.decide r edge world now = (m.verdict (r.handle world now) edge).mapError .refused := by
  have hfits : ∀ (writes : List Empty) (spec : Spec), applyWrites writes spec 0 = .ok spec := by
    intro writes spec
    cases writes with
    | nil => rfl
    | cons write writes => exact write.elim
  rw [Machine.decide, hm.step_eq_verdict]
  cases hv : m.verdict (r.handle world now) edge with
  | error refusal => rfl
  | ok moved =>
    show ((applyWrites moved.2 r.spec 0).mapError _ >>= _) = _
    rw [hfits]
    rfl

/-- What it decides: no end is reached, the edge leaves this label and its gate allows it. -/
theorem Machine.Sound.decide_iff (hm : m.Sound) (r : Resource Spec State) (edge : Edge)
    (world : World) (now : Timestamp) (moved : State × List Empty) :
    m.decide r edge world now = .ok moved ↔
      m.endReason (label r.state) = none ∧ label r.state ∈ (m.edge edge).fromLabels ∧
        (m.edge edge).gate (r.handle world now) = .ok () ∧
        moved = (m.edge edge).effect (r.handle world now) := by
  rw [hm.decide_eq]
  constructor
  · intro h
    exact Machine.verdict_eq_ok (mapError_eq_ok h)
  · rintro ⟨hend, hfrom, hgate, rfl⟩
    rw [Machine.verdict_of_gate hend hfrom hgate]
    rfl

end NoWrites

/-- A sequence of accepted edges, each with its time, as the log's entries record them. -/
inductive TimedRun (m : Machine Request Spec State Label Edge World Write Refusal)
    (start : Resource Spec State) : List (Edge × Timestamp) → Resource Spec State → Prop where
  | nil : TimedRun m start [] start
  | snoc {edges : List (Edge × Timestamp)} {edge : Edge} {r : Resource Spec State}
      {moved : State × List Write} (run : TimedRun m start edges r) (world : World)
      (now : Timestamp) (version : Nat) (h : m.decide r edge world now = .ok moved) :
      TimedRun m start (edges ++ [(edge, now)]) (r.commit moved version now)

namespace Home

variable {L : Type} (log : Log L Spec State Label Edge Write)

/-- A log that refuses a write keeps nothing of it. -/
structure KeepsNothing
    (createResource : L → Resource Spec State → Except String (Resource Spec State) × L)
    (log : Log L Spec State Label Edge Write) : Prop where
  create : ∀ l r message l', createResource l r = (.error message, l') → l' = l
  edge : ∀ l previous next event writes message l',
    log.edgeWithWrites l previous next event writes = (.error message, l') → l' = l

section KeepsNothing

variable {log}
  {createResource : L → Resource Spec State → Except String (Resource Spec State) × L} {l l' : L}

omit [StateValue State Label Datum] [DecidableEq Label] [DecidableEq Datum]
  [RecordWrite Write Spec] in
theorem KeepsNothing.create_eq (h : KeepsNothing createResource log)
    (hl : l' = l ∨ ∃ r message, createResource l r = (.error message, l')) : l' = l := by
  rcases hl with rfl | ⟨r, message, hlog⟩
  · rfl
  · exact h.create _ _ _ _ hlog

omit [StateValue State Label Datum] [DecidableEq Label] [DecidableEq Datum]
  [RecordWrite Write Spec] in
theorem KeepsNothing.edge_eq (h : KeepsNothing createResource log)
    (hl : l' = l ∨ ∃ r next event writes message,
      log.edgeWithWrites l r next event writes = (.error message, l')) : l' = l := by
  rcases hl with rfl | ⟨r, next, event, writes, message, hlog⟩
  · rfl
  · exact h.edge _ _ _ _ _ _ _ hlog

end KeepsNothing

omit [DecidableEq Datum] [RecordWrite Write Spec] in
/-- A create is refused with the resources unchanged, or puts in what the log made of the
admitted resource. -/
theorem createWith_cases
    (createResource : L → Resource Spec State → Except String (Resource Spec State) × L)
    (home : Home L Spec State) (name : String) (request : Request) (world : World)
    (now : Timestamp) :
    (∃ error l, home.createWith m createResource name request world now =
        (.error error, { home with log := l }) ∧
      (l = home.log ∨ ∃ r message, createResource home.log r = (.error message, l))) ∨
    ∃ spec state r l, home.resources[name]? = none ∧
      m.admits world now request = .ok (spec, state) ∧ label state = m.initial ∧
      createResource home.log { name, spec, state, since := now, version := 0 } = (.ok r, l) ∧
      home.createWith m createResource name request world now =
        (.ok r, ⟨home.resources.insert name r, l⟩) := by
  rw [createWith]
  split
  · exact .inl ⟨_, home.log, rfl, .inl rfl⟩
  next hfree =>
    split
    · exact .inl ⟨_, home.log, rfl, .inl rfl⟩
    next spec state hadmits =>
      split_ifs with hlabel
      · exact .inl ⟨_, home.log, rfl, .inl rfl⟩
      · split
        next message l hlog => exact .inl ⟨_, l, rfl, .inr ⟨_, message, hlog⟩⟩
        next r l hlog =>
          exact .inr ⟨spec, state, r, l, hfree, hadmits, not_not.mp hlabel, hlog, rfl⟩

omit [StateValue State Label Datum] [DecidableEq Label] [DecidableEq Datum]
  [RecordWrite Write Spec] in
theorem createResource_ok {l l' : L} {r r' : Resource Spec State}
    (h : log.createResource l r = (.ok r', l')) : ∃ version, r' = { r with version } := by
  rw [Log.createResource] at h
  split at h
  · cases h
  next version _ _ =>
    cases h
    exact ⟨version, rfl⟩

omit [DecidableEq Datum] [RecordWrite Write Spec] in
theorem create_result (home : Home L Spec State) (name : String) (request : Request)
    (world : World) (now : Timestamp) :
    (∃ error, (home.create m log name request world now).1 = .error error ∧
      (home.create m log name request world now).2.resources = home.resources) ∨
    ∃ spec state version, home.resources[name]? = none ∧
      m.admits world now request = .ok (spec, state) ∧ label state = m.initial ∧
      (home.create m log name request world now).1 =
        .ok { name, spec, state, since := now, version } ∧
      (home.create m log name request world now).2.resources =
        home.resources.insert name { name, spec, state, since := now, version } := by
  rcases createWith_cases log.createResource home name request world now with
    ⟨error, l, hcreate, -⟩ | ⟨spec, state, r, l, hfree, hadmits, hlabel, hlog, hcreate⟩
  · exact .inl ⟨error, by rw [create, hcreate], by rw [create, hcreate]⟩
  · obtain ⟨version, rfl⟩ := createResource_ok log hlog
    exact .inr ⟨spec, state, version, hfree, hadmits, hlabel, by rw [create, hcreate],
      by rw [create, hcreate]⟩

/-- The home decides the edge and its log takes it as `version`. -/
structure Accepts (m : Machine Request Spec State Label Edge World Write Refusal)
    (home : Home L Spec State) (name : String) (edge : Edge) (world : World) (now : Timestamp)
    (r : Resource Spec State) (moved : State × List Write) (version : Nat) (l : L) : Prop where
  held : home.resources[name]? = some r
  decided : m.decide r edge world now = .ok moved
  taken : log.edgeWithWrites home.log r
    { r with state := moved.1, since := r.sinceOf moved.1 now }
    { edge, fromLabel := label r.state, toLabel := label moved.1, at_ := now } moved.2 =
      (.ok version, l)

/-- An edge is refused with the resources unchanged, or commits what was decided and logged. -/
theorem apply_cases (home : Home L Spec State) (name : String) (edge : Edge) (world : World)
    (now : Timestamp) :
    (∃ error l, home.apply m log name edge world now = (.error error, { home with log := l }) ∧
      (l = home.log ∨ ∃ r next event writes message,
        log.edgeWithWrites home.log r next event writes = (.error message, l)) ∧
      ∀ r moved version l, ¬ Accepts log m home name edge world now r moved version l) ∨
    ∃ r moved version l event, Accepts log m home name edge world now r moved version l ∧
      home.apply m log name edge world now =
        (.ok event, ⟨home.resources.insert name (r.commit moved version now), l⟩) := by
  rw [apply]
  split
  next hnone =>
    refine .inl ⟨_, home.log, rfl, .inl rfl, fun r moved version l h => ?_⟩
    exact absurd (hnone.symm.trans h.held) nofun
  next r hr =>
    split
    next error herror =>
      refine .inl ⟨_, home.log, rfl, .inl rfl, fun r' moved version l h => ?_⟩
      cases hr.symm.trans h.held
      exact absurd (herror.symm.trans h.decided) nofun
    next moved hmoved =>
      dsimp only
      split
      next message l hlog =>
        refine .inl ⟨_, l, rfl, .inr ⟨_, _, _, _, _, hlog⟩, fun r' moved' version l' h => ?_⟩
        cases hr.symm.trans h.held
        cases hmoved.symm.trans h.decided
        exact absurd (hlog.symm.trans h.taken) nofun
      next version l hlog => exact .inr ⟨r, moved, version, l, _, ⟨hr, hmoved, hlog⟩, rfl⟩

theorem apply_result (home : Home L Spec State) (name : String) (edge : Edge) (world : World)
    (now : Timestamp) :
    (∃ error, (home.apply m log name edge world now).1 = .error error ∧
      (home.apply m log name edge world now).2.resources = home.resources) ∨
    ∃ r moved version event, home.resources[name]? = some r ∧
      m.decide r edge world now = .ok moved ∧
      (home.apply m log name edge world now).1 = .ok event ∧
      (home.apply m log name edge world now).2.resources =
        home.resources.insert name (r.commit moved version now) := by
  rcases apply_cases log home name edge world now with
    ⟨error, l, happly, -⟩ | ⟨r, moved, version, l, event, h, happly⟩
  · exact .inl ⟨error, by rw [happly], by rw [happly]⟩
  · exact .inr ⟨r, moved, version, event, h.held, h.decided, by rw [happly], by rw [happly]⟩

/-- **Every resource a home holds was admitted, then changed by accepted edges only.** -/
theorem exists_run (l : L) (calls : List (Call Request Edge World)) {name : String}
    {r : Resource Spec State}
    (hr : (run m log l calls).resources[name]? = some r) :
    ∃ request start edges, Admitted m request start ∧ Run m anywhere start edges r := by
  induction calls using List.reverseRecOn generalizing name r with
  | nil => simp [run] at hr
  | append_singleton calls last ih =>
    have hlast : run m log l (calls ++ [last]) = call m log (run m log l calls) last := by
      simp [run]
    rw [hlast] at hr
    cases last with
    | create name' request world now =>
      rcases create_result log (run m log l calls) name' request world now with
        ⟨_, -, hsame⟩ | ⟨spec, state, version, -, hadmits, hlabel, -, hput⟩
      · rw [call, hsame] at hr
        exact ih hr
      · rw [call, hput] at hr
        rcases BTreeMap.of_lookup_insert hr with ⟨-, rfl⟩ | ⟨-, hr⟩
        · exact ⟨request, _, [], ⟨name', world, now, version, spec, state, hadmits, hlabel⟩, .nil⟩
        · exact ih hr
    | apply name' edge world now =>
      rcases apply_result log (run m log l calls) name' edge world now with
        ⟨_, -, hsame⟩ | ⟨r₀, moved, version, _, hr₀, hmoved, -, hput⟩
      · rw [call, hsame] at hr
        exact ih hr
      · rw [call, hput] at hr
        rcases BTreeMap.of_lookup_insert hr with ⟨-, rfl⟩ | ⟨-, hr⟩
        · obtain ⟨request, start, edges, hstart, run⟩ := ih hr₀
          have happlied : Applied m r₀ edge (r₀.commit moved version now) :=
            ⟨world, now, version, moved, hmoved⟩
          exact ⟨request, start, edges ++ [edge], hstart, run.snoc trivial happlied⟩
        · exact ih hr

end Home

end Flotilla.Engine
