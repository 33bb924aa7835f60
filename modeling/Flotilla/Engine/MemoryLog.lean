import Flotilla.Engine.Machine
import Flotilla.Lib.Paging

/-!
# The in-memory log

One home's sequence, and its resources' edge events by name and sequence.  A
resource's history is read in pages, each page starting after the last version of
the one before.

* `Home.writes` : the creates and edges that a sequence of calls got accepted, with
  the version each was given.
* `Coherent` : how a home, its log and those writes agree; `coherent_run` : they do
  after any sequence of calls.
* `run_history` : a resource's history is a chain of declared edges, its `since` and
  version are those of its writes, versions rise, and pages give the history.

The sequence saturates at the `u64` maximum.
-/

namespace Flotilla.Engine

open Lib Std
open StateValue (label)

/-- The key of an edge event. -/
structure LogKey where
  name : String
  sequence : Nat
  deriving DecidableEq, Repr

instance : Ord LogKey :=
  ⟨compareLex (compareOn LogKey.name) (compareOn LogKey.sequence)⟩

instance : TransOrd LogKey :=
  inferInstanceAs (TransCmp (compareLex (compareOn LogKey.name) (compareOn LogKey.sequence)))

instance : Std.LawfulEqOrd LogKey where
  compare_self := Std.ReflCmp.compare_self
  eq_of_compare := by
    intro a b h
    obtain ⟨hname, hsequence⟩ := compareLex_eq_eq.mp h
    cases a
    cases b
    cases Std.compare_eq_iff_eq.mp hname
    cases Std.compare_eq_iff_eq.mp hsequence
    rfl

structure MemoryLog (Label Edge : Type) where
  sequence : Nat
  edges : BTreeMap LogKey (EdgeEvent Label Edge)

namespace MemoryLog

variable {Spec State Label Edge Write : Type}

/-- `MemoryLog::new`. -/
def new : MemoryLog Label Edge := ⟨0, ∅⟩

/-- The next sequence: above every one given, and above `version`. -/
def next (log : MemoryLog Label Edge) (version : Nat) : Nat :=
  saturatingAdd (max log.sequence version) 1

/-- Up to `limit` edge events of `name` after version `after`, in sequence order, each with the
version its write gave. -/
def history (log : MemoryLog Label Edge) (name : String) (after limit : Nat) :
    List (Nat × EdgeEvent Label Edge) :=
  ((log.edges.toList.filter fun entry =>
      compare (⟨name, after⟩ : LogKey) entry.1 = .lt ∧
        compare entry.1 ⟨name, u64Max⟩ ≠ .gt).take limit).map
    fun entry => (entry.1.sequence, entry.2)

/-- The history read page by page, each page starting after the last version read. -/
def pages (log : MemoryLog Label Edge) (name : String) :
    Nat → List Nat → List (Nat × EdgeEvent Label Edge)
  | _, [] => []
  | after, limit :: limits =>
    let page := log.history name after limit
    page ++ log.pages name (page.getLast?.elim after Prod.fst) limits

end MemoryLog

/-- The in-memory log keeps events only: the home holds the records. -/
def memoryLog {Spec State Label Edge Write : Type} :
    Log (MemoryLog Label Edge) Spec State Label Edge Write where
  create log _ := (.ok (log.next 0), { log with sequence := log.next 0 })
  edgeWithWrites log _ next event _ :=
    (.ok (log.next next.version), {
      sequence := log.next next.version
      edges := log.edges.insert ⟨next.name, log.next next.version⟩ event })

/-! ### Reading in pages -/

namespace MemoryLog

variable {Label Edge : Type} {log : MemoryLog Label Edge} {name : String}

/-- The events of a resource, each with its version. -/
def eventsOf (log : MemoryLog Label Edge) (name : String) : List (Nat × EdgeEvent Label Edge) :=
  (log.edges.toList.filter fun entry => entry.1.name = name).map
    fun entry => (entry.1.sequence, entry.2)

/-- The next sequence is one more, until the maximum. -/
theorem next_eq {log : MemoryLog Label Edge} {version : Nat}
    (h : version ≤ log.sequence) : log.next version = min (log.sequence + 1) u64Max := by
  rw [next, max_eq_left h, saturatingAdd]

/-- No sequence is above the `u64` maximum. -/
def Bounded (log : MemoryLog Label Edge) : Prop := ∀ key ∈ log.edges, key.sequence ≤ u64Max

theorem compare_key (a b : LogKey) :
    compare a b = (compare a.name b.name).then (compare a.sequence b.sequence) := rfl

/-- The range of a resource's keys after a version. -/
theorem in_range_iff {after : Nat} {key : LogKey} (hkey : key.sequence ≤ u64Max) :
    compare (⟨name, after⟩ : LogKey) key = .lt ∧ compare key ⟨name, u64Max⟩ ≠ .gt ↔
      key.name = name ∧ after < key.sequence := by
  have hswap : compare key.name name = (compare name key.name).swap := Std.OrientedCmp.eq_swap
  rw [compare_key, compare_key, hswap]
  cases hname : compare name key.name with
  | lt | gt =>
    have hne : key.name ≠ name := by
      rintro rfl
      rw [Std.compare_self] at hname
      cases hname
    simp [Ordering.then, hne]
  | eq =>
    have heq : key.name = name := (Std.compare_eq_iff_eq.mp hname).symm
    have hlast : compare key.sequence u64Max ≠ .gt := by
      rw [ne_eq, Nat.compare_eq_gt]
      omega
    simp [Ordering.then, heq, hlast, Nat.compare_eq_lt]

theorem pairwise_eventsOf (log : MemoryLog Label Edge) (name : String) :
    (log.eventsOf name).Pairwise fun a b => a.1 < b.1 := by
  rw [eventsOf, List.pairwise_map, List.pairwise_filter]
  refine ExtTreeMap.ordered_keys_toList.imp fun {a b} hab ha hb => ?_
  rw [decide_eq_true_eq] at ha hb
  rw [compare_key, ha, hb, compare_self] at hab
  exact Nat.compare_eq_lt.mp hab

theorem mem_eventsOf {sequence : Nat} {event : EdgeEvent Label Edge} :
    (sequence, event) ∈ log.eventsOf name ↔
      log.edges[(⟨name, sequence⟩ : LogKey)]? = some event := by
  rw [eventsOf, List.mem_map]
  constructor
  · rintro ⟨⟨key, event'⟩, hmem, heq⟩
    obtain ⟨hmem, hname⟩ := List.mem_filter.mp hmem
    obtain ⟨rfl, rfl⟩ := Prod.mk.inj heq
    rw [decide_eq_true_eq] at hname
    rw [← hname]
    exact ExtTreeMap.mem_toList_iff_getElem?_eq_some.mp hmem
  · intro h
    exact ⟨(⟨name, sequence⟩, event), List.mem_filter.mpr
      ⟨ExtTreeMap.mem_toList_iff_getElem?_eq_some.mpr h, by simp⟩, rfl⟩

theorem history_eq_page (hlog : log.Bounded) (after limit : Nat) :
    log.history name after limit = Paging.page Prod.fst (log.eventsOf name) after limit := by
  have hrange : (log.edges.toList.filter fun entry =>
      compare (⟨name, after⟩ : LogKey) entry.1 = .lt ∧ compare entry.1 ⟨name, u64Max⟩ ≠ .gt) =
      (log.edges.toList.filter fun entry => entry.1.name = name).filter
        fun entry => after < entry.1.sequence := by
    rw [List.filter_filter]
    refine List.filter_congr fun entry hentry => ?_
    have hkey := hlog entry.1 (BTreeMap.mem_of_lookup
      (ExtTreeMap.mem_toList_iff_getElem?_eq_some.mp hentry))
    rw [← Bool.decide_and, decide_eq_decide, in_range_iff hkey, and_comm]
  rw [history, hrange, Paging.page, eventsOf, List.filter_map, List.map_take]
  rfl

theorem pages_eq_pages (hlog : log.Bounded) (after : Nat) (limits : List Nat) :
    log.pages name after limits = Paging.pages Prod.fst (log.eventsOf name) after limits := by
  induction limits generalizing after with
  | nil => rfl
  | cons limit limits ih => rw [pages, Paging.pages, ih, history_eq_page hlog]

end MemoryLog

/-! ### The writes of a home -/

/-- What an accepted write did. -/
inductive WriteKind (Label Edge : Type) where
  | created (at_ : Timestamp)
  | moved (event : EdgeEvent Label Edge)

/-- An accepted write: the version it was given, the resource it is of, and what it did. -/
structure Written (Label Edge : Type) where
  version : Nat
  name : String
  kind : WriteKind Label Edge

section Log

variable {Label Edge : Type}

/-- The event of a write, with its version. -/
def Written.event? (w : Written Label Edge) : Option (Nat × EdgeEvent Label Edge) :=
  match w.kind with
  | .created _ => none
  | .moved event => some (w.version, event)

/-- The writes of a resource. -/
def writesOf (name : String) (writes : List (Written Label Edge)) : List (Written Label Edge) :=
  writes.filter fun w => w.name = name

/-- The events of a resource. -/
def eventsIn (name : String) (writes : List (Written Label Edge)) :
    List (Nat × EdgeEvent Label Edge) :=
  (writesOf name writes).filterMap Written.event?

/-- When a resource was created. -/
def createdAt (name : String) (writes : List (Written Label Edge)) : Option Timestamp :=
  (writesOf name writes).findSome? fun w =>
    match w.kind with
    | .created at_ => some at_
    | .moved _ => none

/-- The time of the last event that changed the label, or of creation. -/
def enteredAt [DecidableEq Label] (created : Timestamp) (events : List (EdgeEvent Label Edge)) :
    Timestamp :=
  (events.filter fun event => event.fromLabel ≠ event.toLabel).getLast?.elim created EdgeEvent.at_

variable {writes : List (Written Label Edge)} {name : String} {version : Nat}

theorem writesOf_snoc (kind : WriteKind Label Edge) :
    writesOf name (writes ++ [⟨version, name, kind⟩]) =
      writesOf name writes ++ [⟨version, name, kind⟩] := by
  simp [writesOf]

variable {other : String} {writes' : List (Written Label Edge)}

theorem writesOf_snoc_of_ne (hne : name ≠ other) (kind : WriteKind Label Edge) :
    writesOf other (writes ++ [⟨version, name, kind⟩]) = writesOf other writes := by
  simp [writesOf, hne]

theorem eventsIn_snoc (event : EdgeEvent Label Edge) :
    (eventsIn name (writes ++ [⟨version, name, .moved event⟩])).map Prod.snd =
      (eventsIn name writes).map Prod.snd ++ [event] := by
  simp [eventsIn, writesOf_snoc, Written.event?]

theorem eventsIn_of_writesOf (h : writesOf other writes' = writesOf other writes) :
    eventsIn other writes' = eventsIn other writes := by
  rw [eventsIn, h, eventsIn]

theorem createdAt_of_writesOf (h : writesOf other writes' = writesOf other writes) :
    createdAt other writes' = createdAt other writes := by
  rw [createdAt, h, createdAt]

theorem createdAt_snoc {created : Timestamp} (h : createdAt name writes = some created)
    (kind : WriteKind Label Edge) :
    createdAt name (writes ++ [⟨version, name, kind⟩]) = some created := by
  rw [createdAt] at h
  rw [createdAt, writesOf_snoc, List.findSome?_append, h]
  rfl

theorem enteredAt_snoc [DecidableEq Label] (created : Timestamp)
    (events : List (EdgeEvent Label Edge)) (event : EdgeEvent Label Edge) :
    enteredAt created (events ++ [event]) =
      if event.fromLabel = event.toLabel then enteredAt created events else event.at_ := by
  rw [enteredAt, enteredAt, List.filter_append]
  by_cases h : event.fromLabel = event.toLabel
  · simp [h]
  · simp [h]

end Log

section Writes

variable {Request Spec State Label Datum Edge World Write Refusal : Type}
variable [StateValue State Label Datum] [DecidableEq Label] [DecidableEq Datum]
variable [RecordWrite Write Spec]
variable (m : Machine Request Spec State Label Edge World Write Refusal)

/-- The write that a call makes, if it is accepted. -/
def Home.written (home : Home (MemoryLog Label Edge) Spec State) :
    Call Request Edge World → List (Written Label Edge)
  | .create name request world now =>
    match home.create m memoryLog name request world now with
    | (.ok _, home') => [⟨home'.log.sequence, name, .created now⟩]
    | (.error _, _) => []
  | .apply name edge world now =>
    match home.apply m memoryLog name edge world now with
    | (.ok event, home') => [⟨home'.log.sequence, name, .moved event⟩]
    | (.error _, _) => []

/-- A home with an empty in-memory log, after the calls. -/
def Home.memory (calls : List (Call Request Edge World)) : Home (MemoryLog Label Edge) Spec State :=
  Home.run m memoryLog .new calls

/-- The writes that the calls make, in order. -/
def Home.writesFrom (home : Home (MemoryLog Label Edge) Spec State) :
    List (Call Request Edge World) → List (Written Label Edge)
  | [] => []
  | call :: calls => home.written m call ++ (home.call m memoryLog call).writesFrom calls

/-- The writes that the calls make at a home with an empty in-memory log. -/
def Home.writes (calls : List (Call Request Edge World)) : List (Written Label Edge) :=
  Home.writesFrom m (⟨∅, .new⟩ : Home (MemoryLog Label Edge) Spec State) calls

/-- What a call does to a home over an in-memory log. -/
inductive Home.Answered (home : Home (MemoryLog Label Edge) Spec State) :
    Call Request Edge World → Home (MemoryLog Label Edge) Spec State →
      List (Written Label Edge) → Prop where
  | refused (call : Call Request Edge World) : Answered home call home []
  | created {name : String} {request : Request} {world : World} {now : Timestamp}
      {spec : Spec} {state : State} (hfree : home.resources[name]? = none)
      (hlabel : label state = m.initial) :
      Answered home (.create name request world now)
        ⟨home.resources.insert name { name, spec, state, since := now, version := home.log.next 0 },
          { home.log with sequence := home.log.next 0 }⟩
        [⟨home.log.next 0, name, .created now⟩]
  | moved {name : String} {edge : Edge} {world : World} {now : Timestamp}
      {r : Resource Spec State} {moved : State × List Write} (hr : home.resources[name]? = some r)
      (hfrom : label r.state ∈ (m.edge edge).fromLabels)
      (hto : label moved.1 ∈ (m.edge edge).toLabels) :
      Answered home (.apply name edge world now)
        ⟨home.resources.insert name (r.commit moved (home.log.next r.version) now), {
          sequence := home.log.next r.version
          edges := home.log.edges.insert ⟨r.name, home.log.next r.version⟩
            { edge, fromLabel := label r.state, toLabel := label moved.1, at_ := now } }⟩
        [⟨home.log.next r.version, name,
          .moved { edge, fromLabel := label r.state, toLabel := label moved.1, at_ := now }⟩]

variable {m} {edge : Edge} {home : Home (MemoryLog Label Edge) Spec State}
  {kind : WriteKind Label Edge} {moved : State × List Write} {name : String} {now : Timestamp}
  {r : Resource Spec State} {version : Nat} {world : World} {writes : List (Written Label Edge)}

theorem Machine.decide_eq_ok (h : m.decide r edge world now = .ok moved) :
    label r.state ∈ (m.edge edge).fromLabels ∧ label moved.1 ∈ (m.edge edge).toLabels := by
  obtain ⟨moved', hstep, h⟩ := bind_eq_ok h
  obtain ⟨spec, -, h⟩ := bind_eq_ok h
  cases h
  obtain ⟨moved', hv, hstep⟩ := bind_eq_ok hstep
  obtain ⟨-, hstep⟩ := of_refuseIf hstep
  obtain ⟨htarget, hstep⟩ := of_refuseIf hstep
  obtain ⟨-, hstep⟩ := of_refuseIf hstep
  cases hstep
  exact ⟨(Machine.verdict_eq_ok (mapError_eq_ok hv)).2.1, not_not.mp htarget⟩

theorem Home.answered (home : Home (MemoryLog Label Edge) Spec State)
    (call : Call Request Edge World) :
    home.Answered m call (home.call m memoryLog call) (home.written m call) := by
  cases call with
  | create name request world now =>
    simp only [Home.call, Home.written, Home.create, Home.createWith]
    cases hfree : home.resources[name]? with
    | some r => exact .refused _
    | none =>
      cases hadmits : m.admits world now request with
      | error refusal => exact .refused _
      | ok admitted =>
        obtain ⟨spec, state⟩ := admitted
        by_cases hlabel : label state = m.initial
        · simp only [ne_eq, hlabel, not_true_eq_false, if_false]
          exact .created hfree hlabel
        · simp only [ne_eq, hlabel, not_false_eq_true, if_true]
          exact .refused _
  | apply name edge world now =>
    simp only [Home.call, Home.written, Home.apply]
    cases hr : home.resources[name]? with
    | none => exact .refused _
    | some r =>
      cases hdecide : m.decide r edge world now with
      | error error =>
        simp only [hdecide]
        exact .refused _
      | ok moved =>
        obtain ⟨hfrom, hto⟩ := Machine.decide_eq_ok hdecide
        simp only [hdecide]
        exact .moved hr hfrom hto

/-- An in-memory log takes every edge that is decided. -/
theorem Home.apply_memory (hr : home.resources[name]? = some r)
    (hdecide : m.decide r edge world now = .ok moved) :
    (home.call m memoryLog (.apply name edge world now)).resources[name]? =
      some (r.commit moved (home.log.next r.version) now) := by
  simp only [Home.call, Home.apply, hr, hdecide]
  exact ExtTreeMap.getElem?_insert_self

variable (calls : List (Call Request Edge World)) (call : Call Request Edge World)

theorem Home.memory_snoc :
    Home.memory m (calls ++ [call]) = (Home.memory m calls).call m memoryLog call := by
  simp [Home.memory, Home.run]

theorem Home.writes_snoc :
    Home.writes m (calls ++ [call]) =
      Home.writes m calls ++ (Home.memory m calls).written m call := by
  have hfrom : ∀ home,
      home.writesFrom m (calls ++ [call]) =
        home.writesFrom m calls ++ (calls.foldl (Home.call m memoryLog) home).written m call := by
    induction calls with
    | nil => simp [Home.writesFrom]
    | cons first calls ih =>
      intro home
      rw [List.cons_append, Home.writesFrom, Home.writesFrom, ih, List.append_assoc,
        List.foldl_cons]
  exact hfrom _

/-! ### History -/

/-- A chain of declared edges from one label to another. -/
def Chain (m : Machine Request Spec State Label Edge World Write Refusal) :
    Label → List (EdgeEvent Label Edge) → Label → Prop
  | at_, [], last => at_ = last
  | at_, event :: events, last =>
    event.fromLabel = at_ ∧ event.fromLabel ∈ (m.edge event.edge).fromLabels ∧
      event.toLabel ∈ (m.edge event.edge).toLabels ∧ Chain m event.toLabel events last

omit [StateValue State Label Datum] [DecidableEq Label] [DecidableEq Datum]
  [RecordWrite Write Spec] in
theorem Chain.snoc {at_ last : Label} {events : List (EdgeEvent Label Edge)}
    (h : Chain m at_ events last) {event : EdgeEvent Label Edge} (hat : event.fromLabel = last)
    (hfrom : event.fromLabel ∈ (m.edge event.edge).fromLabels)
    (hto : event.toLabel ∈ (m.edge event.edge).toLabels) :
    Chain m at_ (events ++ [event]) event.toLabel := by
  induction events generalizing at_ with
  | nil => exact ⟨hat.trans h.symm, hfrom, hto, rfl⟩
  | cons first events ih => exact ⟨h.1, h.2.1, h.2.2.1, ih h.2.2.2⟩

/-- How a home, its log and the writes made so far agree. -/
structure Coherent (m : Machine Request Spec State Label Edge World Write Refusal)
    (home : Home (MemoryLog Label Edge) Spec State) (writes : List (Written Label Edge)) :
    Prop where
  unwritten : ∀ name, home.resources[name]? = none → writesOf name writes = []
  named : ∀ (name : String) (r : Resource Spec State), home.resources[name]? = some r →
    r.name = name
  chain : ∀ (name : String) (r : Resource Spec State), home.resources[name]? = some r →
    Chain m m.initial ((eventsIn name writes).map Prod.snd) (label r.state)
  since : ∀ (name : String) (r : Resource Spec State), home.resources[name]? = some r →
    ∃ created, createdAt name writes = some created ∧
      r.since = enteredAt created ((eventsIn name writes).map Prod.snd)
  version : ∀ (name : String) (r : Resource Spec State), home.resources[name]? = some r →
    (writesOf name writes).getLast?.map Written.version = some r.version
  given : ∀ w ∈ writes, 0 < w.version ∧ w.version ≤ home.log.sequence
  bounded : home.log.sequence ≤ u64Max ∧ home.log.Bounded
  rising : writes.Pairwise fun w w' => w.version < u64Max → w.version < w'.version
  logged : home.log.sequence < u64Max → ∀ (name : String) (sequence : Nat)
    (event : EdgeEvent Label Edge), home.log.edges[(⟨name, sequence⟩ : LogKey)]? = some event ↔
      ⟨sequence, name, .moved event⟩ ∈ writes

omit [DecidableEq Datum] [RecordWrite Write Spec] in
/-- What the writes say of the resources other than the written one stays. -/
theorem Coherent.other (hc : Coherent m home writes) {name other : String} (hne : name ≠ other)
    (hr : home.resources[other]? = some r) :
    Chain m m.initial ((eventsIn other (writes ++ [⟨version, name, kind⟩])).map Prod.snd)
        (label r.state) ∧
      (∃ created, createdAt other (writes ++ [⟨version, name, kind⟩]) = some created ∧
        r.since = enteredAt created
          ((eventsIn other (writes ++ [⟨version, name, kind⟩])).map Prod.snd)) ∧
      (writesOf other (writes ++ [⟨version, name, kind⟩])).getLast?.map Written.version =
        some r.version := by
  have hsame : writesOf other (writes ++ [⟨version, name, kind⟩]) = writesOf other writes :=
    writesOf_snoc_of_ne hne kind
  rw [eventsIn_of_writesOf hsame, createdAt_of_writesOf hsame, hsame]
  exact ⟨hc.chain other r hr, hc.since other r hr, hc.version other r hr⟩

omit [DecidableEq Datum] [RecordWrite Write Spec] in
theorem Coherent.version_le (hc : Coherent m home writes) (hr : home.resources[name]? = some r) :
    r.version ≤ home.log.sequence := by
  obtain ⟨w, hw, hversion⟩ := Option.map_eq_some_iff.mp (hc.version name r hr)
  rw [← hversion]
  exact (hc.given w (List.mem_filter.mp (List.mem_of_getLast? hw)).1).2

omit [DecidableEq Datum] [RecordWrite Write Spec] in
/-- A write keeps the agreement, if it is right about its own resource and event. -/
theorem Coherent.snoc (hc : Coherent m home writes) {edges : BTreeMap LogKey (EdgeEvent Label Edge)}
    (hnext : version = min (home.log.sequence + 1) u64Max) (hname : r.name = name)
    (hversion : r.version = version) (hchain : Chain m m.initial
      ((eventsIn name (writes ++ [⟨version, name, kind⟩])).map Prod.snd) (label r.state))
    (hsince : ∃ created, createdAt name (writes ++ [⟨version, name, kind⟩]) = some created ∧
      r.since = enteredAt created
      ((eventsIn name (writes ++ [⟨version, name, kind⟩])).map Prod.snd))
    (hbounded : MemoryLog.Bounded ⟨version, edges⟩)
    (hlogged : home.log.sequence < version → ∀ (other : String) (sequence : Nat)
      (event : EdgeEvent Label Edge), edges[(⟨other, sequence⟩ : LogKey)]? = some event ↔
      ⟨sequence, other, .moved event⟩ ∈ writes ++ [⟨version, name, kind⟩]) :
    Coherent m ⟨home.resources.insert name r, ⟨version, edges⟩⟩
      (writes ++ [⟨version, name, kind⟩]) := by
  obtain ⟨hmax, -⟩ := hc.bounded
  refine ⟨?_, ?_, ?_, ?_, ?_, ?_, ?_, ?_, ?_⟩
  · intro other hnone
    rw [ExtTreeMap.getElem?_insert] at hnone
    split_ifs at hnone with heq
    have hne : name ≠ other := fun h => heq (by rw [h]; exact compare_self)
    rw [writesOf_snoc_of_ne hne]
    exact hc.unwritten other hnone
  · exact BTreeMap.forall_insert hname fun other r' _ hr' => hc.named other r' hr'
  · exact BTreeMap.forall_insert hchain fun other r' hne hr' => (hc.other hne hr').1
  · exact BTreeMap.forall_insert hsince fun other r' hne hr' => (hc.other hne hr').2.1
  · refine BTreeMap.forall_insert ?_ fun other r' hne hr' => (hc.other hne hr').2.2
    rw [writesOf_snoc, List.getLast?_append, List.getLast?_singleton, hversion]
    rfl
  · intro w hw
    rcases List.mem_append.mp hw with hw | hw
    · obtain ⟨hpos, hle⟩ := hc.given w hw
      exact ⟨hpos, by show w.version ≤ version; omega⟩
    · cases List.mem_singleton.mp hw
      have hpos : 0 < u64Max := by decide
      exact ⟨by show 0 < version; omega, le_rfl⟩
  · exact ⟨by show version ≤ u64Max; omega, hbounded⟩
  · rw [List.pairwise_append]
    refine ⟨hc.rising, List.pairwise_singleton _ _, ?_⟩
    intro w hw w' hw' hlt
    cases List.mem_singleton.mp hw'
    have hle := (hc.given w hw).2
    show w.version < version
    omega
  · intro hlt
    have hlt : version < u64Max := hlt
    exact hlogged (by omega)

omit [DecidableEq Datum] in
/-- **One call keeps a home, its log and its writes in agreement.** -/
theorem Coherent.answered {home home' : Home (MemoryLog Label Edge) Spec State}
    {writes new : List (Written Label Edge)} {call : Call Request Edge World}
    (hc : Coherent m home writes) (h : home.Answered m call home' new) :
    Coherent m home' (writes ++ new) := by
  obtain ⟨hmax, hbounded⟩ := hc.bounded
  cases h with
  | refused =>
    rw [List.append_nil]
    exact hc
  | @created name request world now spec state hfree hlabel =>
    have hnext : home.log.next 0 = min (home.log.sequence + 1) u64Max :=
      MemoryLog.next_eq (Nat.zero_le _)
    have hwrites : writesOf name (writes ++ [⟨home.log.next 0, name, .created now⟩]) =
        [⟨home.log.next 0, name, .created now⟩] := by
      rw [writesOf_snoc, hc.unwritten name hfree, List.nil_append]
    have hevents : eventsIn name (writes ++ [⟨home.log.next 0, name, .created now⟩]) = [] := by
      rw [eventsIn, hwrites]
      rfl
    refine hc.snoc hnext rfl rfl ?_ ⟨now, ?_, ?_⟩ hbounded ?_
    · rw [hevents]
      exact hlabel.symm
    · rw [createdAt, hwrites]
      rfl
    · rw [hevents]
      rfl
    · intro hlt other sequence event
      rw [hc.logged (by omega)]
      simp
  | @moved name edge world now r moved hr hfrom hto =>
    have hnext : home.log.next r.version = min (home.log.sequence + 1) u64Max :=
      MemoryLog.next_eq (hc.version_le hr)
    obtain rfl := hc.named name r hr
    obtain ⟨created, hcreated, hsince⟩ := hc.since r.name r hr
    refine hc.snoc hnext rfl rfl ?_ ⟨created, createdAt_snoc hcreated _, ?_⟩ ?_ ?_
    · rw [eventsIn_snoc]
      exact (hc.chain r.name r hr).snoc rfl hfrom hto
    · rw [eventsIn_snoc, enteredAt_snoc, ← hsince]
      rfl
    · intro key hkey
      rcases ExtTreeMap.mem_insert.mp hkey with heq | hkey
      · cases compare_eq_iff_eq.mp heq
        show home.log.next r.version ≤ u64Max
        omega
      · exact hbounded key hkey
    · intro hlt other sequence event
      rw [ExtTreeMap.getElem?_insert]
      split_ifs with heq
      · obtain ⟨rfl, rfl⟩ := LogKey.mk.inj (compare_eq_iff_eq.mp heq)
        have hfresh : ∀ w ∈ writes, w.version ≠ home.log.next r.version := by
          intro w hw hwv
          have hle := (hc.given w hw).2
          omega
        constructor
        · intro hev
          cases hev
          exact List.mem_append_right _ (List.mem_singleton_self _)
        · intro hmem
          rcases List.mem_append.mp hmem with hmem | hmem
          · exact absurd rfl (hfresh _ hmem)
          · cases List.mem_singleton.mp hmem
            rfl
      · rw [hc.logged (by omega), List.mem_append, List.mem_singleton, or_iff_left]
        intro hw
        cases hw
        exact heq compare_self

theorem coherent_run : Coherent m (Home.memory m calls) (Home.writes m calls) := by
  induction calls using List.reverseRecOn with
  | nil =>
    refine ⟨fun _ _ => rfl, ?_, ?_, ?_, ?_, nofun, ⟨Nat.zero_le _, ?_⟩, .nil, ?_⟩
    all_goals simp [Home.memory, Home.run, Home.writes, Home.writesFrom, MemoryLog.new,
      MemoryLog.Bounded]
  | append_singleton calls call ih =>
    rw [Home.memory_snoc, Home.writes_snoc]
    exact ih.answered (Home.answered _ call)

omit [DecidableEq Datum] [RecordWrite Write Spec] in
/-- Below the maximum the log's events of a resource are those of its writes. -/
theorem Coherent.eventsOf_eq (hc : Coherent m home writes) (hlt : home.log.sequence < u64Max)
    (name : String) : home.log.eventsOf name = eventsIn name writes := by
  have hmem : ∀ entry, entry ∈ home.log.eventsOf name ↔ entry ∈ eventsIn name writes := by
    rintro ⟨sequence, event⟩
    rw [MemoryLog.mem_eventsOf, hc.logged hlt, eventsIn, List.mem_filterMap]
    constructor
    · intro hw
      exact ⟨_, List.mem_filter.mpr ⟨hw, by simp⟩, rfl⟩
    · rintro ⟨⟨version, name', kind⟩, hw, hevent⟩
      obtain ⟨hwrite, hname⟩ := List.mem_filter.mp hw
      cases kind with
      | created at_ => cases hevent
      | moved event' =>
        cases hevent
        cases of_decide_eq_true hname
        exact hwrite
  have hrising : (eventsIn name writes).Pairwise fun a b => a.1 < b.1 := by
    rw [eventsIn, List.pairwise_filterMap]
    refine (hc.rising.filter _).imp_of_mem fun {w w'} hw _ hlt' a ha b hb => ?_
    have hversion : w.version < w'.version :=
      hlt' ((hc.given w (List.mem_filter.mp hw).1).2.trans_lt hlt)
    cases hk : w.kind with
    | created at_ => simp [Written.event?, hk] at ha
    | moved event =>
      cases hk' : w'.kind with
      | created at_ => simp [Written.event?, hk'] at hb
      | moved event' =>
        simp only [Written.event?, hk, hk', Option.some.injEq] at ha hb
        rw [← ha, ← hb]
        exact hversion
  exact (MemoryLog.pairwise_eventsOf home.log name).eq_of_mem_iff hrising hmem

/-- **After any calls at a home: every resource's events are a chain of declared edges from the
initial label to its own; its `since` is the time of the last event that changed its label, or of
its creation; its version is that of its last write; versions rise until the maximum; and, below
the maximum, the log read in pages of any sizes gives the resource's events.** -/
theorem run_history (m : Machine Request Spec State Label Edge World Write Refusal)
    (calls : List (Call Request Edge World)) :
    (∀ (name : String) (r : Resource Spec State),
      (Home.memory m calls).resources[name]? = some r →
        Chain m m.initial ((eventsIn name (Home.writes m calls)).map Prod.snd) (label r.state) ∧
        (∃ created, createdAt name (Home.writes m calls) = some created ∧
          r.since = enteredAt created ((eventsIn name (Home.writes m calls)).map Prod.snd)) ∧
        (writesOf name (Home.writes m calls)).getLast?.map Written.version = some r.version) ∧
      ((Home.writes m calls).Pairwise fun w w' => w.version < u64Max → w.version < w'.version) ∧
      ((Home.memory m calls).log.sequence < u64Max → ∀ (name : String) (limits : List Nat),
        (Home.memory m calls).log.pages name 0 limits =
          (eventsIn name (Home.writes m calls)).take limits.sum) := by
  have hc := coherent_run (m := m) calls
  refine ⟨fun name r hr => ⟨hc.chain name r hr, hc.since name r hr, hc.version name r hr⟩,
    hc.rising, fun hlt name limits => ?_⟩
  have hpos : ∀ entry ∈ eventsIn name (Home.writes m calls), 0 < entry.1 := by
    intro entry hentry
    obtain ⟨w, hw, hevent⟩ := List.mem_filterMap.mp hentry
    have hgiven := (hc.given w (List.mem_filter.mp hw).1).1
    cases hk : w.kind with
    | created at_ => simp [Written.event?, hk] at hevent
    | moved event =>
      simp only [Written.event?, hk, Option.some.injEq] at hevent
      rw [← hevent]
      exact hgiven
  rw [MemoryLog.pages_eq_pages hc.bounded.2,
    Paging.pages_eq (MemoryLog.pairwise_eventsOf _ name), hc.eventsOf_eq hlt]
  rw [List.filter_eq_self.mpr fun entry hentry => decide_eq_true (hpos entry hentry)]

end Writes

/-! ### A latch -/

/-- A latch, open until it is shut. -/
inductive Latch where
  | isOpen
  | shut
  deriving DecidableEq

instance : StateValue Latch Latch Empty where
  label := id
  data _ := []

/-- The machine of a latch: one edge, which shuts it. -/
def latch : Machine Unit Unit Latch Latch Unit Unit Empty String where
  initial := .isOpen
  edge _ := { fromLabels := [.isOpen], toLabels := [.shut], effect := fun _ => (.shut, []) }
  ends := [(.shut, "the latch is shut")]
  ended _ reason := reason
  wrongState _ _ := "wrong state"
  admits _ _ _ := .ok ((), .isOpen)

/-- A latch made at 3 and shut at 5. -/
def latchCalls : List (Call Unit Unit Unit) := [.create "front" () () 3, .apply "front" () () 5]

theorem run_history_latch :
    (Home.memory latch latchCalls).resources["front"]? =
        some { name := "front", spec := (), state := .shut, since := 5, version := 2 } ∧
      (Home.memory latch latchCalls).log.sequence < u64Max ∧
      (∃ created, createdAt "front" (Home.writes latch latchCalls) = some created ∧
        5 = enteredAt created ((eventsIn "front" (Home.writes latch latchCalls)).map Prod.snd)) ∧
      (Home.memory latch latchCalls).log.pages "front" 0 [1, 1] =
        (eventsIn "front" (Home.writes latch latchCalls)).take 2 := by
  have hr : (Home.memory latch latchCalls).resources["front"]? =
      some { name := "front", spec := (), state := .shut, since := 5, version := 2 } := by
    rfl
  have hlt : (Home.memory latch latchCalls).log.sequence < u64Max := by
    decide
  obtain ⟨hresource, -, hpages⟩ := run_history latch latchCalls
  exact ⟨hr, hlt, (hresource "front" _ hr).2.1, hpages hlt "front" [1, 1]⟩

end Flotilla.Engine
