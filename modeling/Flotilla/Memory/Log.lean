import Flotilla.Memory.Store
import Flotilla.Lib.EventLog

/-!
# The event log of a stream

Every write, through whichever operation, does one of three things to a stream:
nothing, take a version and lose it, or log one event under the version it took
(`Write.effect`).  From that alone come the invariants of the log over every
sequence of writes that does not wrap the counter (`Write.Fits`): the event log,
the compaction floor, the broadcast ring and the objects are all functions of
one increasing history (`Logged`).

The versions of the history are consecutive as long as moreover no write loses
the version it took and no tombstone raises the counter (`writes_dense`).
-/

namespace Flotilla.Memory

open Lib
open Lib.EventLog

variable {V S T : Type}

/-! ### Writes -/

inductive Write (V S T : Type) where
  | create (now : Timestamp) (input : InputMeta) (spec : S) (merge : Option (MergeMetadata V))
  | update (input : InputMeta) (resourceVersion : String) (spec : S)
      (admittedMerge : Option (MergeMetadata V))
  | updateStatus (name resourceVersion : String) (status : T)
  | delete (now : Timestamp) (name : String)
  | tombstone (name : String) (minimumResourceVersion : Option String)

def Write.run [DecidableEq V] (c : Stream V S T) (s : ResourceStore V S T) :
    Write V S T → ResourceStore V S T
  | .create now input spec merge => (createTypedWithMerge c now s input spec merge).1
  | .update input resourceVersion spec admittedMerge =>
    (updateTypedWithMerge c s input resourceVersion spec admittedMerge).1
  | .updateStatus name resourceVersion status =>
    (Memory.updateStatus c s name resourceVersion status).1
  | .delete now name => (Memory.delete c now s name).1
  | .tombstone name minimum => (Memory.tombstone c s name minimum).1

/-- A plan that takes a version can use it. -/
def Encodes {α : Type} (plan : Except ResourceError (Plan V S T α)) (version : Nat) : Prop :=
  ∀ prepare, plan = .ok (.write prepare) → ∃ result, prepare version = .ok result

/-- The copies and the encoding that a write makes after taking its version succeed. -/
def Write.Encodes [DecidableEq V] (c : Stream V S T) (s : ResourceStore V S T) :
    Write V S T → Prop
  | .create now input spec merge =>
    Memory.Encodes (createPlan c now s input spec merge) s.nextVersion
  | .update input resourceVersion spec admittedMerge =>
    Memory.Encodes (updatePlan c s input resourceVersion spec admittedMerge) s.nextVersion
  | .updateStatus name resourceVersion status =>
    Memory.Encodes (statusPlan c s name resourceVersion status) s.nextVersion
  | .delete now name => Memory.Encodes (deletePlan c now s name) s.nextVersion
  | .tombstone _ _ => True

/-- The write comes to taking a version. -/
def Takes {α : Type} (plan : Except ResourceError (Plan V S T α)) : Prop :=
  ∃ prepare, plan = .ok (.write prepare)

def Write.Takes [DecidableEq V] (c : Stream V S T) (s : ResourceStore V S T) :
    Write V S T → Prop
  | .create now input spec merge => Memory.Takes (createPlan c now s input spec merge)
  | .update input resourceVersion spec admittedMerge =>
    Memory.Takes (updatePlan c s input resourceVersion spec admittedMerge)
  | .updateStatus name resourceVersion status =>
    Memory.Takes (statusPlan c s name resourceVersion status)
  | .delete now name => Memory.Takes (deletePlan c now s name)
  | .tombstone name minimum =>
    (∃ m, parseMinimum minimum = .ok m) ∧ s.objects.contains name = false ∧
      s.tombstones[name]? = none

/-- The counter a write takes its version from: a new tombstone may raise it first. -/
def Write.counter (s : ResourceStore V S T) : Write V S T → Nat
  | .tombstone name minimum =>
    match parseMinimum minimum with
    | .error _ => s.nextVersion
    | .ok m =>
      if s.objects.contains name ∨ s.tombstones[name]?.isSome then s.nextVersion
      else (raiseFloor s m).nextVersion
  | _ => s.nextVersion

/-- The write does not wrap the version counter. -/
def Write.Fits [DecidableEq V] (c : Stream V S T) (s : ResourceStore V S T) (w : Write V S T) :
    Prop :=
  c.overflowChecks = true ∨ (w.Takes c s → w.counter s ≠ u64Max)

/-- A tombstone that would be created asks for no version above the counter. -/
def Write.KeepsCounter (s : ResourceStore V S T) : Write V S T → Prop
  | .tombstone name minimum =>
    s.objects.contains name = false → s.tombstones[name]? = none →
      ∀ m, parseMinimum minimum = .ok (some m) → m < s.nextVersion
  | _ => True

/-! ### What a write can do -/

/-- An object is stored under its name, as encoding leaves it. -/
def StoredAs (name : String) (o : ResourceObject V S T) : Prop :=
  o.metadata.name = name ∧ o.stripped = o

def Keyed (s : ResourceStore V S T) : Prop :=
  ∀ (name : String) (o : ResourceObject V S T), s.objects[name]? = some o → StoredAs name o

def Change.WellFormed (s : ResourceStore V S T) (version : Nat) : Change V S T → Prop
  | .added name o | .modified name o | .deleted name o =>
    StoredAs name o ∧ o.metadata.resourceVersion = toString version
  | .tombstone t => s.objects[t.name]? = none ∧ t.resourceVersion = toString version

inductive Effect (c : Stream V S T) (s : ResourceStore V S T) (takes encodes : Prop) :
    ResourceStore V S T → Prop
  | unchanged : Effect c s takes encodes s
  | wasted {next : Nat} (hnext : increment c.overflowChecks s.nextVersion = some next)
      (htakes : takes) (h : ¬ encodes) : Effect c s takes encodes { s with nextVersion := next }
  | logged {next : Nat} (hnext : increment c.overflowChecks s.nextVersion = some next)
      (htakes : takes) {change : Change V S T} (h : change.WellFormed s s.nextVersion) :
      Effect c s takes encodes ({ s with nextVersion := next }.commit c s.nextVersion change)

variable {c : Stream V S T} {s : ResourceStore V S T}

theorem runPlan_effect {α : Type} {plan : Except ResourceError (Plan V S T α)}
    (hplan : ∀ prepare change a, plan = .ok (.write prepare) →
      prepare s.nextVersion = .ok (change, a) → change.WellFormed s s.nextVersion) :
    Effect c s (Takes plan) (Encodes plan s.nextVersion) (runPlan c s plan).1 := by
  rcases hrun : runPlan c s plan with ⟨s', out⟩
  rcases runPlan_cases hrun with
    ⟨rfl, -⟩ | ⟨next, hnext, ⟨prepare, e, hwrite, herror⟩, rfl, -⟩ |
      ⟨next, hnext, prepare, change, a, hwrite, hprepare, -, rfl⟩
  · exact .unchanged
  · refine .wasted hnext ⟨prepare, hwrite⟩ fun hencodes => ?_
    obtain ⟨result, hresult⟩ := hencodes prepare hwrite
    rw [herror] at hresult
    cases hresult
  · exact .logged hnext ⟨prepare, hwrite⟩ (hplan prepare change a hwrite hprepare)

theorem storedAs_encoded {name : String} {o encoded : ResourceObject V S T}
    (h : encodeObject c.kind o = .ok encoded) (hname : o.metadata.name = name) :
    StoredAs name encoded ∧ encoded.metadata.resourceVersion = o.metadata.resourceVersion := by
  rw [encodeObject_eq_ok h]
  exact ⟨⟨hname, o.stripped_stripped⟩, rfl⟩

theorem create_effect (now : Timestamp) (input : InputMeta) (spec : S)
    (merge : Option (MergeMetadata V)) :
    Effect c s (Takes (createPlan c now s input spec merge))
      (Encodes (createPlan c now s input spec merge) s.nextVersion)
      (createTypedWithMerge c now s input spec merge).1 := by
  refine runPlan_effect ?_
  intro prepare change a hplan hprepare
  obtain ⟨status, -, hplan⟩ := bind_eq_ok hplan
  cases hplan
  obtain ⟨spec', -, hprepare⟩ := bind_eq_ok hprepare
  obtain ⟨encoded, hencoded, hprepare⟩ := bind_eq_ok hprepare
  cases hprepare
  exact storedAs_encoded hencoded rfl

/-! ### Updates at a version -/

/-- A call with the version of an object read before. -/
inductive Update (V S T : Type) where
  | ofSpec (input : InputMeta) (spec : S) (admittedMerge : Option (MergeMetadata V))
  | ofStatus (name : String) (status : T)

namespace Update

variable {u : Update V S T} {resourceVersion : String}

def name : Update V S T → String
  | .ofSpec input _ _ => input.name
  | .ofStatus name _ => name

/-- The stored object with what the update sets, under its new version. -/
def Builds (k : ResourceKind V S T) (version : Nat) (o a : ResourceObject V S T) :
    Update V S T → Prop
  | .ofSpec input spec merge =>
    ∃ copy, k.cloneSpec spec = .ok copy ∧ a = updatedObject o input copy merge version
  | .ofStatus _ status => ∃ copy, k.cloneStatus status = .ok copy ∧
    a = { o with
      metadata := { o.metadata with resourceVersion := toString version }
      status := some copy }

variable [DecidableEq V]

def plan (c : Stream V S T) (s : ResourceStore V S T) (resourceVersion : String) :
    Update V S T → Except ResourceError (Plan V S T (ResourceObject V S T))
  | .ofSpec input spec merge => updatePlan c s input resourceVersion spec merge
  | .ofStatus name status => statusPlan c s name resourceVersion status

/-- An update that is not refused found the object at its version. -/
theorem plan_reads {plan : Plan V S T (ResourceObject V S T)}
    (h : u.plan c s resourceVersion = .ok plan) :
    ∃ row, s.objects[u.name]? = some row ∧ row.metadata.resourceVersion = resourceVersion ∧
      match plan with
      | .done a => a = row.stripped
      | .write prepare => ∀ version change a, prepare version = .ok (change, a) →
        u.Builds c.kind version row.stripped a ∧
          (change = .modified u.name a.stripped ∨ change = .deleted u.name a.stripped) := by
  cases u with
  | ofSpec input spec merge =>
    obtain ⟨⟨o, unchanged⟩, hadmits, h⟩ := bind_eq_ok h
    obtain ⟨o', hread, hadmits⟩ := bind_eq_ok hadmits
    obtain ⟨_, -, hadmits⟩ := bind_eq_ok hadmits
    obtain ⟨_, -, hadmits⟩ := bind_eq_ok hadmits
    obtain ⟨_, -, hadmits⟩ := bind_eq_ok hadmits
    obtain ⟨_, -, hadmits⟩ := bind_eq_ok hadmits
    cases hadmits
    obtain ⟨row, hrow, rfl, hversion⟩ := readAtVersion_ok hread
    refine ⟨row, hrow, hversion, ?_⟩
    simp only at h
    split at h
    · cases h
      rfl
    cases h
    intro version change a hprepare
    obtain ⟨copy, hcopy, hprepare⟩ := bind_eq_ok hprepare
    obtain ⟨encoded, hencoded, hprepare⟩ := bind_eq_ok hprepare
    cases hprepare
    rw [encodeObject_eq_ok hencoded, updateChange]
    refine ⟨⟨copy, hcopy, rfl⟩, ?_⟩
    split
    · exact .inr rfl
    · exact .inl rfl
  | ofStatus name status =>
    obtain ⟨o, hread, h⟩ := bind_eq_ok h
    obtain ⟨_, -, h⟩ := bind_eq_ok h
    obtain ⟨unchanged, -, h⟩ := bind_eq_ok h
    obtain ⟨row, hrow, rfl, hversion⟩ := readAtVersion_ok hread
    refine ⟨row, hrow, hversion, ?_⟩
    split at h
    · cases h
      rfl
    cases h
    intro version change a hprepare
    obtain ⟨copy, hcopy, hprepare⟩ := bind_eq_ok hprepare
    obtain ⟨encoded, hencoded, hprepare⟩ := bind_eq_ok hprepare
    cases hprepare
    rw [encodeObject_eq_ok hencoded]
    exact ⟨⟨copy, hcopy, rfl⟩, .inl rfl⟩

omit [DecidableEq V] in
theorem Builds.metadata {k : ResourceKind V S T} {version : Nat} {o a : ResourceObject V S T}
    (h : u.Builds k version o a) :
    a.metadata.name = o.metadata.name ∧ a.metadata.resourceVersion = toString version := by
  cases u with
  | ofSpec | ofStatus =>
    obtain ⟨copy, -, rfl⟩ := h
    exact ⟨rfl, rfl⟩

theorem effect (hs : Keyed s) (u : Update V S T) (resourceVersion : String) :
    Effect c s (Takes (u.plan c s resourceVersion))
      (Encodes (u.plan c s resourceVersion) s.nextVersion)
      (runPlan c s (u.plan c s resourceVersion)).1 := by
  refine runPlan_effect ?_
  intro prepare change a hplan hprepare
  obtain ⟨row, hrow, -, hwrite⟩ := plan_reads hplan
  obtain ⟨hbuilds, hchange⟩ := hwrite _ change a hprepare
  have hstored : StoredAs u.name a.stripped ∧ _ :=
    ⟨⟨hbuilds.metadata.1.trans (hs _ row hrow).1, a.stripped_stripped⟩, hbuilds.metadata.2⟩
  rcases hchange with rfl | rfl <;> exact hstored

end Update

theorem delete_effect (hs : Keyed s) (now : Timestamp) (name : String) :
    Effect c s (Takes (deletePlan c now s name)) (Encodes (deletePlan c now s name) s.nextVersion)
      (delete c now s name).1 := by
  refine runPlan_effect ?_
  intro prepare change a hplan hprepare
  unfold deletePlan at hplan
  cases hrow : s.objects[name]? with
  | none => rw [hrow] at hplan; cases hplan
  | some row =>
    rw [hrow] at hplan
    obtain ⟨o, hdecode, hplan⟩ := bind_eq_ok hplan
    obtain ⟨_, -, hdecode⟩ := bind_eq_ok hdecode
    cases hdecode
    have hname : row.stripped.metadata.name = name := (hs name row hrow).1
    split at hplan
    · cases hplan
    cases hplan
    simp only at hprepare
    split at hprepare
    all_goals
      obtain ⟨encoded, hencoded, hprepare⟩ := bind_eq_ok hprepare
      cases hprepare
      exact storedAs_encoded hencoded hname

theorem nextVersion_raiseFloor (minimum : Option Nat) :
    raiseFloor s minimum = { s with nextVersion := (raiseFloor s minimum).nextVersion } := by
  cases minimum <;> rfl

theorem le_raiseFloor (s : ResourceStore V S T) (minimum : Option Nat) :
    s.nextVersion ≤ (raiseFloor s minimum).nextVersion := by
  cases minimum with
  | none => exact le_rfl
  | some m => exact le_max_left _ _

theorem raiseFloor_le {minimum : Option Nat} (hmax : s.nextVersion ≤ u64Max) :
    (raiseFloor s minimum).nextVersion ≤ u64Max := by
  cases minimum with
  | none => exact hmax
  | some m => exact max_le hmax (min_le_right _ _)

/-- The counter a write starts from is not below the stream's. -/
theorem Write.le_counter (w : Write V S T) : s.nextVersion ≤ w.counter s := by
  cases w with
  | tombstone name minimum =>
    simp only [Write.counter]
    split
    · exact le_rfl
    · split
      · exact le_rfl
      · exact le_raiseFloor s _
  | _ => exact le_rfl

theorem Write.counter_le (w : Write V S T) (hmax : s.nextVersion ≤ u64Max) :
    w.counter s ≤ u64Max := by
  cases w with
  | tombstone name minimum =>
    simp only [Write.counter]
    split
    · exact hmax
    · split
      · exact hmax
      · exact raiseFloor_le hmax
  | _ => exact hmax

variable {s' : ResourceStore V S T} {w : Write V S T}

theorem Write.fits_of_counter_lt [DecidableEq V] (h : w.counter s < u64Max) : w.Fits c s :=
  Or.inr fun _ => h.ne

theorem Write.KeepsCounter.counter_eq (h : w.KeepsCounter s) : w.counter s = s.nextVersion := by
  cases w with
  | tombstone name minimum =>
    simp only [Write.counter]
    split
    · rfl
    next m hminimum =>
      split
      · rfl
      next hfree =>
        cases m with
        | none => rfl
        | some m =>
          have hobject : s.objects.contains name = false := by
            simp only [not_or, Bool.not_eq_true] at hfree
            exact hfree.1
          have htombstone : s.tombstones[name]? = none := by
            simp only [not_or, Option.not_isSome_iff_eq_none] at hfree
            exact hfree.2
          have hlt := h hobject htombstone m hminimum
          have hle : saturatingAdd m 1 ≤ s.nextVersion := (min_le_left _ _).trans hlt
          exact max_eq_left hle
  | _ => rfl

/-- A new tombstone is a write from the counter that its minimum may have raised. -/
theorem tombstone_effect [DecidableEq V] (name : String) (minimum : Option String) :
    Effect c { s with nextVersion := (Write.tombstone name minimum : Write V S T).counter s }
      ((Write.tombstone name minimum : Write V S T).Takes c s) True
      (tombstone c s name minimum).1 := by
  unfold tombstone
  simp only [Write.counter, Write.Takes]
  cases hminimum : parseMinimum minimum with
  | error e => exact .unchanged
  | ok m =>
    simp only
    by_cases hobject : s.objects.contains name = true
    · rw [if_pos hobject, if_pos (Or.inl hobject)]
      exact .unchanged
    rw [if_neg hobject]
    cases htombstone : s.tombstones[name]? with
    | some t =>
      rw [if_pos (Or.inr Option.isSome_some)]
      exact .unchanged
    | none =>
      rw [if_neg (by simp [hobject])]
      have habsent : s.objects[name]? = none := by
        rw [Std.ExtTreeMap.contains_eq_isSome_getElem?] at hobject
        exact Option.not_isSome_iff_eq_none.mp hobject
      have heffect : Effect c (raiseFloor s m) (Takes (.ok (tombstonePlan c name)))
          (Encodes (.ok (tombstonePlan c name)) (raiseFloor s m).nextVersion)
          (runPlan c (raiseFloor s m) (.ok (tombstonePlan c name))).1 := by
        refine runPlan_effect ?_
        intro prepare change a hprepare hresult
        cases hprepare
        cases hresult
        refine ⟨?_, rfl⟩
        cases m <;> exact habsent
      have hencodes : Encodes (.ok (tombstonePlan c name)) (raiseFloor s m).nextVersion ↔ True := by
        refine iff_true_intro ?_
        intro prepare hprepare
        cases hprepare
        exact ⟨_, rfl⟩
      have htakes : Takes (.ok (tombstonePlan c name)) ↔
          ((∃ m', Except.ok m = (.ok m' : Except ResourceError (Option Nat))) ∧
            s.objects.contains name = false ∧ (none : Option ResourceTombstone) = none) :=
        ⟨fun _ => ⟨⟨m, rfl⟩, Bool.eq_false_of_not_eq_true hobject, rfl⟩, fun _ => ⟨_, rfl⟩⟩
      rw [hencodes, htakes] at heffect
      rw [← nextVersion_raiseFloor]
      exact heffect

/-- **What any write does to a stream**, from a counter that only a tombstone moves. -/
theorem Write.effect [DecidableEq V] (hs : Keyed s) (w : Write V S T) :
    Effect c { s with nextVersion := w.counter s } (w.Takes c s) (w.Encodes c s) (w.run c s) := by
  cases w with
  | create now input spec merge => exact create_effect now input spec merge
  | update input resourceVersion spec admittedMerge =>
    exact Update.effect hs (.ofSpec input spec admittedMerge) resourceVersion
  | updateStatus name resourceVersion status =>
    exact Update.effect hs (.ofStatus name status) resourceVersion
  | delete now name => exact delete_effect hs now name
  | tombstone name minimum => exact tombstone_effect name minimum

/-! ### The history -/

def StoredBody.resourceVersion : StoredBody V S T → String
  | .object o => o.metadata.resourceVersion
  | .tombstone t => t.resourceVersion

structure SerializedWatchEvent (V S T : Type) where
  action : StoredEventKind
  payload : StoredBody V S T
  deriving DecidableEq

def StoredEvent.serialized (e : StoredEvent V S T) : SerializedWatchEvent V S T :=
  ⟨e.kind, e.object⟩

/-- What a watcher does with an event it receives. -/
def SerializedWatchEvent.applyTo (objects : BTreeMap String (ResourceObject V S T))
    (e : SerializedWatchEvent V S T) : BTreeMap String (ResourceObject V S T) :=
  match e.action, e.payload with
  | .deleted, body => objects.erase body.name
  | _, .object o => objects.insert o.metadata.name o
  | _, .tombstone _ => objects

def applyStored (objects : BTreeMap String (ResourceObject V S T)) (e : StoredEvent V S T) :
    BTreeMap String (ResourceObject V S T) :=
  e.serialized.applyTo objects

def Change.event (version : Nat) : Change V S T → StoredEvent V S T
  | .added _ o => ⟨version, .added, .object o⟩
  | .modified _ o => ⟨version, .modified, .object o⟩
  | .deleted _ o => ⟨version, .deleted, .object o⟩
  | .tombstone t => ⟨version, .deleted, .tombstone t⟩

/-- The event that a write logged, if it logged one. -/
def newEvents (s s' : ResourceStore V S T) : List (StoredEvent V S T) :=
  if s'.watchers.sent = s.watchers.sent then [] else s'.eventLog.getLast?.toList

/-- The stream is determined by the events ever logged. -/
structure Logged (s : ResourceStore V S T) (history : List (StoredEvent V S T)) : Prop where
  keyed : Keyed s
  positive : 0 < s.nextVersion
  counter : s.nextVersion ≤ u64Max
  increasing : Increasing StoredEvent.version history
  below : ∀ e ∈ history, e.version < s.nextVersion
  stamped : ∀ e ∈ history, e.object.resourceVersion = toString e.version
  retained : Retains StoredEvent.version history s.eventLog s.compactedThrough
  sent : s.watchers.sent = history.length
  ring : LastOf watchRingCapacity history s.watchers.ring
  objects : s.objects = history.foldl applyStored ∅

variable {version : Nat} {change : Change V S T} {history : List (StoredEvent V S T)}

theorem Stream.retainedEvents_pos (c : Stream V S T) : 0 < c.retainedEvents := by
  unfold Stream.retainedEvents EventHistory.retainedEvents
  split
  · exact c.eventRetention.pos
  · exact Nat.one_pos

theorem send_ring {E : Type} (channel : WatchChannel E) (e : E) :
    (channel.send e).ring =
      (channel.ring ++ [e]).drop (channel.ring.length + 1 - watchRingCapacity) := by
  simp only [WatchChannel.send]

@[simp] theorem commit_nextVersion : (s.commit c version change).nextVersion = s.nextVersion := by
  cases change <;> rfl

@[simp] theorem commit_watchers :
    (s.commit c version change).watchers = s.watchers.send (change.event version) := by
  cases change <;> rfl

@[simp] theorem commit_eventLog :
    (s.commit c version change).eventLog =
      s.eventLog.drop (s.eventLog.length + 1 - c.retainedEvents) ++ [change.event version] := by
  cases change <;> rfl

theorem pushEvent_compactedThrough (k : ResourceKind V S T) (s : ResourceStore V S T)
    (e : StoredEvent V S T) (n : Nat) :
    (s.pushEvent k e n).compactedThrough =
      floorAfter StoredEvent.version s.eventLog (s.eventLog.length + 1 - n)
        s.compactedThrough := by
  unfold ResourceStore.pushEvent floorAfter
  simp only
  split
  · cases s.eventLog[s.eventLog.length + 1 - n - 1]? <;> rfl
  · rfl

@[simp] theorem commit_compactedThrough :
    (s.commit c version change).compactedThrough =
      floorAfter StoredEvent.version s.eventLog (s.eventLog.length + 1 - c.retainedEvents)
        s.compactedThrough := by
  cases change with
  | added | modified | deleted => exact pushEvent_compactedThrough _ _ _ _
  | tombstone t => exact pushEvent_compactedThrough c.kind s ⟨version, .deleted, .tombstone t⟩ _

theorem event_version : (change.event version).version = version := by
  cases change <;> rfl

theorem commit_objects (h : change.WellFormed s version) :
    (s.commit c version change).objects = applyStored s.objects (change.event version) := by
  cases change with
  | added | modified | deleted =>
    obtain ⟨⟨rfl, -⟩, -⟩ := h
    rfl
  | tombstone t =>
    have habsent : t.name ∉ s.objects := by
      rw [Std.ExtTreeMap.mem_iff_isSome_getElem?, h.1]
      simp
    exact (BTreeMap.erase_eq_self_iff.mpr habsent).symm

theorem keyed_commit (hs : Keyed s) (h : change.WellFormed s version) :
    Keyed (s.commit c version change) := by
  cases change with
  | added name o | modified name o =>
    exact BTreeMap.forall_insert h.1 fun name' o' _ => hs name' o'
  | deleted name o => exact fun name' o' ho' => hs name' o' (BTreeMap.of_lookup_erase ho').2
  | tombstone t => exact hs

theorem Logged.raise (h : Logged s history) {n : Nat} (hn : s.nextVersion ≤ n) (hmax : n ≤ u64Max) :
    Logged { s with nextVersion := n } history :=
  { h with
    positive := h.positive.trans_le hn
    counter := hmax
    below := fun e he => (h.below e he).trans_le hn }

/-- Committing a change under the next version appends its event to the history. -/
theorem Logged.commit (h : Logged s history) (hmax : s.nextVersion < u64Max)
    (hchange : change.WellFormed s s.nextVersion) :
    Logged ({ s with nextVersion := s.nextVersion + 1 }.commit c s.nextVersion change)
      (history ++ [change.event s.nextVersion]) where
  keyed := keyed_commit h.keyed hchange
  positive := by
    rw [commit_nextVersion]
    exact Nat.succ_pos _
  counter := by
    rw [commit_nextVersion]
    exact hmax
  increasing := by
    refine h.increasing.append ?_
    rw [event_version]
    exact h.below
  below := by
    rw [commit_nextVersion]
    refine forall_mem_concat (fun e he => (h.below e he).trans (Nat.lt_succ_self _)) ?_
    rw [event_version]
    exact Nat.lt_succ_self _
  stamped := by
    refine forall_mem_concat h.stamped ?_
    cases change <;> exact hchange.2
  retained := by
    rw [commit_eventLog, commit_compactedThrough]
    exact h.retained.push h.increasing c.retainedEvents_pos _
  sent := by
    rw [commit_watchers, List.length_append, ← h.sent]
    rfl
  ring := by
    rw [commit_watchers, send_ring]
    exact h.ring.push _
  objects := by
    rw [List.foldl_append, ← h.objects]
    exact commit_objects hchange

theorem newEvents_commit :
    newEvents s ({ s with nextVersion := s.nextVersion + 1 }.commit c s.nextVersion change) =
      [change.event s.nextVersion] := by
  unfold newEvents
  rw [if_neg, commit_eventLog, List.getLast?_concat]
  · rfl
  · rw [commit_watchers]
    exact Nat.succ_ne_self _

theorem newEvents_of_watchers_eq (h : s'.watchers = s.watchers) : newEvents s s' = [] :=
  if_pos (congrArg WatchChannel.sent h)

/-- What a write that does not wrap the counter does: the counter goes up by one
if at all, and the event logged is stamped with the version taken. -/
theorem Effect.cases {takes encodes : Prop} (heffect : Effect c s takes encodes s')
    (hcounter : s.nextVersion ≤ u64Max)
    (hfits : c.overflowChecks = true ∨ (takes → s.nextVersion ≠ u64Max)) :
    s' = s ∨ s.nextVersion < u64Max ∧
      ((¬ encodes ∧ s' = { s with nextVersion := s.nextVersion + 1 }) ∨
        ∃ change : Change V S T, change.WellFormed s s.nextVersion ∧
          s' = { s with nextVersion := s.nextVersion + 1 }.commit c s.nextVersion change) := by
  cases heffect with
  | unchanged => exact .inl rfl
  | wasted hnext htakes hencodes =>
    obtain ⟨hmax, rfl⟩ := increment_eq_some hcounter hnext (hfits.imp_right fun h => h htakes)
    exact .inr ⟨hmax, .inl ⟨hencodes, rfl⟩⟩
  | logged hnext htakes hchange =>
    obtain ⟨hmax, rfl⟩ := increment_eq_some hcounter hnext (hfits.imp_right fun h => h htakes)
    exact .inr ⟨hmax, .inr ⟨_, hchange, rfl⟩⟩

/-- **One write keeps the stream a function of its history.** -/
theorem Logged.effect (h : Logged s history) {takes encodes : Prop}
    (heffect : Effect c s takes encodes s')
    (hfits : c.overflowChecks = true ∨ (takes → s.nextVersion ≠ u64Max)) :
    Logged s' (history ++ newEvents s s') := by
  rcases heffect.cases h.counter hfits with rfl | ⟨hmax, ⟨-, rfl⟩ | ⟨change, hchange, rfl⟩⟩
  · rw [newEvents_of_watchers_eq rfl, List.append_nil]
    exact h
  · have hnone : newEvents s { s with nextVersion := s.nextVersion + 1 } = [] :=
      newEvents_of_watchers_eq rfl
    rw [hnone, List.append_nil]
    exact h.raise (Nat.le_succ _) hmax
  · rw [newEvents_commit]
    exact h.commit hmax hchange

/-! ### Sequences of writes -/

/-- A stream with every event it ever logged. -/
structure Journal (V S T : Type) where
  store : ResourceStore V S T := {}
  history : List (StoredEvent V S T) := []

section Runs

variable [DecidableEq V]

def Journal.write (c : Stream V S T) (j : Journal V S T) (w : Write V S T) : Journal V S T :=
  ⟨w.run c j.store, j.history ++ newEvents j.store (w.run c j.store)⟩

def Journal.writes (c : Stream V S T) (j : Journal V S T) (ws : List (Write V S T)) :
    Journal V S T :=
  ws.foldl (Journal.write c) j

omit [DecidableEq V] in
theorem logged_start : Logged ({} : ResourceStore V S T) [] where
  keyed := by
    intro name o h
    simp at h
  positive := Nat.one_pos
  counter := show 1 ≤ u64Max by decide
  increasing := List.Pairwise.nil
  below := fun _ h => absurd h List.not_mem_nil
  stamped := fun _ h => absurd h List.not_mem_nil
  retained := ⟨[], rfl, fun _ h => absurd h List.not_mem_nil⟩
  sent := rfl
  ring := List.drop_nil.symm
  objects := rfl

variable {j : Journal V S T} {w : Write V S T}

/-- A write never lowers the counter, and what it logs is not below it. -/
theorem Logged.le_newEvents (h : Logged j.store j.history) (hfits : w.Fits c j.store) :
    j.store.nextVersion ≤ (w.run c j.store).nextVersion ∧
      ∀ e ∈ newEvents j.store (w.run c j.store), j.store.nextVersion ≤ e.version := by
  have hn := w.le_counter (s := j.store)
  have heffect := w.effect (c := c) h.keyed
  generalize hrun : w.run c j.store = s' at heffect
  have hquiet : ∀ n, newEvents j.store { j.store with nextVersion := n } = [] :=
    fun n => newEvents_of_watchers_eq rfl
  rcases heffect.cases (w.counter_le h.counter) hfits with rfl | ⟨-, ⟨-, rfl⟩ | ⟨change, -, rfl⟩⟩
  · refine ⟨hn, fun e he => ?_⟩
    rw [hquiet] at he
    exact absurd he List.not_mem_nil
  · refine ⟨Nat.le_succ_of_le hn, fun e he => ?_⟩
    rw [hquiet] at he
    exact absurd he List.not_mem_nil
  · rw [commit_nextVersion]
    refine ⟨Nat.le_succ_of_le hn, fun e he => ?_⟩
    have hsame : newEvents j.store =
        newEvents { j.store with nextVersion := w.counter j.store } := rfl
    rw [hsame, newEvents_commit] at he
    rw [List.mem_singleton.mp he, event_version]
    exact hn

theorem Logged.write (h : Logged j.store j.history) (hfits : w.Fits c j.store) :
    Logged (j.write c w).store (j.write c w).history :=
  (h.raise w.le_counter (w.counter_le h.counter)).effect (w.effect h.keyed) hfits

/-! ### Consecutive versions -/

/-- The history is numbered from one and the counter comes right after it. -/
structure Dense (j : Journal V S T) : Prop where
  versions : j.history.map StoredEvent.version = List.range' 1 j.history.length
  counter : j.store.nextVersion = j.history.length + 1

/-- No write of the sequence raises or wraps the counter or loses a version. -/
def Journal.Consecutive (c : Stream V S T) : Journal V S T → List (Write V S T) → Prop
  | _, [] => True
  | j, w :: ws =>
    w.Fits c j.store ∧ w.KeepsCounter j.store ∧ w.Encodes c j.store ∧
      Journal.Consecutive c (j.write c w) ws

theorem Dense.write (hd : Dense j) (h : Logged j.store j.history) (hfits : w.Fits c j.store)
    (hcounter : w.KeepsCounter j.store) (hencodes : w.Encodes c j.store) : Dense (j.write c w) := by
  have heffect := w.effect (c := c) h.keyed
  unfold Write.Fits at hfits
  rw [hcounter.counter_eq] at heffect hfits
  rcases heffect.cases h.counter hfits with hrun | ⟨-, ⟨hnot, -⟩ | ⟨change, -, hrun⟩⟩
  · have hwrite : j.write c w = j := by
      unfold Journal.write
      rw [hrun, newEvents_of_watchers_eq rfl, List.append_nil]
    rw [hwrite]
    exact hd
  · exact absurd hencodes hnot
  · have hwrite : j.write c w = ⟨{ j.store with nextVersion := j.store.nextVersion + 1 }.commit c
        j.store.nextVersion change, j.history ++ [change.event j.store.nextVersion]⟩ := by
      unfold Journal.write
      rw [hrun, newEvents_commit]
    rw [hwrite]
    refine ⟨?_, ?_⟩
    · rw [List.map_append, hd.versions, List.length_append, List.length_singleton,
        List.range'_1_concat, List.map_singleton, event_version, hd.counter, Nat.add_comm 1]
    · rw [commit_nextVersion, List.length_append, hd.counter]
      rfl

theorem Dense.writes {ws : List (Write V S T)} (hd : Dense j) (h : Logged j.store j.history)
    (hws : j.Consecutive c ws) :
    Dense (j.writes c ws) ∧ Logged (j.writes c ws).store (j.writes c ws).history := by
  induction ws generalizing j with
  | nil => exact ⟨hd, h⟩
  | cons w ws ih =>
    obtain ⟨hfits, hcounter, hencodes, hws⟩ := hws
    exact ih (hd.write h hfits hcounter hencodes) (h.write hfits) hws

omit [DecidableEq V] in
theorem Dense.chain (hd : Dense j) : j.history.IsChain fun a b => b.version = a.version + 1 := by
  have hrange := List.isChain_range' 1 j.history.length 1
  rw [← hd.versions, List.isChain_map] at hrange
  exact hrange

/-- **The events of a stream are numbered without a gap**, after every sequence of
writes of which none raises or wraps the counter or loses the version it took. -/
theorem writes_dense (c : Stream V S T) (ws : List (Write V S T))
    (hws : Journal.Consecutive c {} ws) :
    ((Journal.writes c {} ws).history.IsChain fun a b => b.version = a.version + 1) ∧
      (Journal.writes c {} ws).store.eventLog.IsChain fun a b => b.version = a.version + 1 := by
  have hstart : Dense ({} : Journal V S T) := ⟨rfl, rfl⟩
  have hlogged : Logged ({} : Journal V S T).store ({} : Journal V S T).history := logged_start
  obtain ⟨hdense, hrun⟩ := hstart.writes hlogged hws
  have hchain := hdense.chain
  refine ⟨hchain, ?_⟩
  obtain ⟨trimmed, hhistory, -⟩ := hrun.retained
  rw [hhistory] at hchain
  exact hchain.right_of_append

end Runs

/-- A kind whose copies and encoding never fail loses no version. -/
theorem Write.encodes_of_total [DecidableEq V]
    (hspec : ∀ spec, ∃ spec', c.kind.cloneSpec spec = .ok spec')
    (hstatus : ∀ status, ∃ status', c.kind.cloneStatus status = .ok status')
    (hserializes : ∀ o, c.kind.serializes o = .ok ()) (w : Write V S T) : w.Encodes c s := by
  have hencode : ∀ o, encodeObject c.kind o = .ok o.stripped := by
    intro o
    unfold encodeObject
    rw [hserializes o]
    rfl
  cases w with
  | create now input spec merge =>
    intro prepare hplan
    obtain ⟨status, -, hplan⟩ := bind_eq_ok hplan
    cases hplan
    obtain ⟨spec', hspec'⟩ := hspec spec
    simp only [hspec', hencode]
    exact ⟨_, rfl⟩
  | update input resourceVersion spec admittedMerge =>
    intro prepare hplan
    obtain ⟨⟨o, unchanged⟩, -, hplan⟩ := bind_eq_ok hplan
    simp only at hplan
    split at hplan
    · cases hplan
    cases hplan
    obtain ⟨spec', hspec'⟩ := hspec spec
    simp only [hspec', hencode]
    exact ⟨_, rfl⟩
  | updateStatus name resourceVersion status =>
    intro prepare hplan
    obtain ⟨o, -, hplan⟩ := bind_eq_ok hplan
    obtain ⟨_, -, hplan⟩ := bind_eq_ok hplan
    obtain ⟨unchanged, -, hplan⟩ := bind_eq_ok hplan
    split at hplan
    · cases hplan
    cases hplan
    obtain ⟨status', hstatus'⟩ := hstatus status
    simp only [hstatus', hencode]
    exact ⟨_, rfl⟩
  | delete now name =>
    intro prepare hplan
    unfold deletePlan at hplan
    cases hrow : s.objects[name]? with
    | none => rw [hrow] at hplan; cases hplan
    | some row =>
      rw [hrow] at hplan
      obtain ⟨o, -, hplan⟩ := bind_eq_ok hplan
      split at hplan
      · cases hplan
      cases hplan
      simp only [hencode]
      split <;> exact ⟨_, rfl⟩
  | tombstone name minimum => exact trivial

/-! ### A stream of events -/

def eventStream : Stream Unit EventTree Unit where
  kind := eventKind
  ns := "flotilla"
  eventRetention := ⟨2, by decide⟩
  generation := none
  overflowChecks := false

def createEvent (name : String) : Write Unit EventTree Unit :=
  .create 0 { name } { reason := some "Synced", message := "held" } none

theorem eventStream_encodes (s : ResourceStore Unit EventTree Unit)
    (w : Write Unit EventTree Unit) : w.Encodes eventStream s :=
  w.encodes_of_total (fun spec => ⟨spec, rfl⟩) (fun status => ⟨status, rfl⟩) fun _ => rfl

/-- Two creates, a delete and a tombstone without a minimum. -/
theorem writes_dense_tombstone :
    (Journal.writes eventStream {} [createEvent "a", createEvent "b", .delete 1 "a",
      .tombstone "a" none]).history.IsChain fun a b => b.version = a.version + 1 := by
  refine (writes_dense eventStream _ ?_).1
  refine ⟨Write.fits_of_counter_lt (by decide +kernel), trivial, eventStream_encodes _ _,
    Write.fits_of_counter_lt (by decide +kernel), trivial, eventStream_encodes _ _,
    Write.fits_of_counter_lt (by decide +kernel), trivial, eventStream_encodes _ _,
    Write.fits_of_counter_lt (by decide +kernel), ?_, trivial, trivial⟩
  intro _ _ m hm
  cases hm

/-- A tombstone above a replica's cursor skips the versions up to it. -/
theorem writes_gap :
    (Journal.writes eventStream {} [createEvent "a", .tombstone "b" (some "10")]).store.eventLog.map
      StoredEvent.version = [1, 11] := by
  decide +kernel

end Flotilla.Memory
