import Flotilla.Memory.Log

/-!
# Listing and watching a stream

A reader lists a stream and then watches it from the version of the list.  The
watch first replays the retained events after that version and then follows the
broadcast ring; a reader that falls more than a ring behind gets one error and
the watch ends.

Writes, lists, watches and polls interleave in any order here, and each watch
keeps what it yielded.  `run_watch` : as long as no write wraps the version
counter, every watch yields the events after its list, each once and in order, or
fails with an expired watch; a watch that has nothing pending has brought its
list up to the current objects.
-/

namespace Flotilla.Memory

open Lib
open Lib.EventLog

variable {V S T : Type}

/-! ### Lists and watches -/

def listRaw (c : Stream V S T) (s : ResourceStore V S T) :
    Except ResourceError (ResourceList V S T) := do
  let items ← (s.objects.toList.map Prod.snd).mapM (decodeObject c.kind)
  return {
    items := items.insertionSort fun a b => a.metadata.name ≤ b.metadata.name
    resourceVersion := toString s.currentVersion
    generation := c.generation }

inductive WatchStart where
  | now
  | fromVersion (version : String)
  | fromVersionInGeneration (generation resourceVersion : String)
  deriving DecidableEq

/-- Resume from where a list left off, in the list's store generation. -/
def WatchStart.resumingFrom (listed : ResourceList V S T) : WatchStart :=
  match listed.generation with
  | some generation => .fromVersionInGeneration generation listed.resourceVersion
  | none => .fromVersion listed.resourceVersion

def parsePosition (version : String) : Except ResourceError Nat :=
  match parseU64 version with
  | some v => .ok v
  | none =>
    .error (.invalid ("invalid resourceVersion '" ++ version ++ "': " ++ parseU64Error version))

def replayFrom (generation : Option String) : WatchStart → Except ResourceError (Option Nat)
  | .now => .ok none
  | .fromVersion version =>
    if generation.isSome then
      .error (.invalid "generational in-memory watches require a generation")
    else (parsePosition version).map some
  | .fromVersionInGeneration requested version =>
    match generation with
    | none => .error (.invalid "in-memory resource watches are not generational")
    | some current =>
      if requested ≠ current then
        .error (.invalid ("resourceVersion belongs to generation '" ++ requested
          ++ "', current generation is '" ++ current ++ "'"))
      else (parsePosition version).map some

/-- The replay still to come, and the receiver's place in the broadcast. -/
structure WatchStream (V S T : Type) where
  generation : Option String
  replay : List (StoredEvent V S T)
  receiver : Option Nat
  deriving DecidableEq

def openWatch (c : Stream V S T) (s : ResourceStore V S T) :
    Option Nat → Except ResourceError (WatchStream V S T)
  | none => .ok ⟨c.generation, [], some s.watchers.sent⟩
  | some v =>
    if v < s.compactedThrough then
      .error (.watchExpired (toString v) (some (toString s.compactedThrough)))
    else if s.currentVersion < v then
      .error (.invalid ("resourceVersion " ++ toString v ++ " is ahead of current version "
        ++ toString s.currentVersion))
    else
      .ok ⟨c.generation, s.eventLog.filter fun e => v < e.version, some s.watchers.sent⟩

def watchRaw (c : Stream V S T) (s : ResourceStore V S T) (start : WatchStart) :
    Except ResourceError (WatchStream V S T) := do
  let position ← replayFrom c.generation start
  openWatch c s position

inductive Poll (V S T : Type) where
  | item (e : SerializedWatchEvent V S T)
  | failed (e : ResourceError)
  | pending
  | ended

def lagged : ResourceError := .watchExpired "live watch lagged; relist required" none

def WatchStream.poll (channel : WatchChannel (StoredEvent V S T)) (w : WatchStream V S T) :
    Poll V S T × WatchStream V S T :=
  match w.replay with
  | e :: rest => (.item e.serialized, { w with replay := rest })
  | [] =>
    match w.receiver with
    | none => (.ended, w)
    | some position =>
      if watchRingCapacity < channel.sent - position then
        (.failed lagged, { w with receiver := none })
      else
        match channel.ring[channel.ring.length - (channel.sent - position)]? with
        | some e => (.item e.serialized, { w with receiver := some (position + 1) })
        | none => (.pending, w)

/-! ### Sessions -/

/-- A watch with the list it resumed from and what it gave its reader. -/
structure Watch (V S T : Type) where
  listed : ResourceList V S T
  stream : WatchStream V S T
  yielded : List (SerializedWatchEvent V S T) := []
  failures : List ResourceError := []

def Watch.poll (channel : WatchChannel (StoredEvent V S T)) (w : Watch V S T) : Watch V S T :=
  match w.stream.poll channel with
  | (.item e, stream) => { w with stream, yielded := w.yielded ++ [e] }
  | (.failed e, stream) => { w with stream, failures := w.failures ++ [e] }
  | (_, stream) => { w with stream }

structure Session (V S T : Type) where
  journal : Journal V S T := {}
  lists : List (ResourceList V S T) := []
  watches : List (Watch V S T) := []

/-- A step of a session whose writes are all `allowed`; calls that fail change nothing. -/
inductive Step [DecidableEq V] (c : Stream V S T)
    (allowed : ResourceStore V S T → Write V S T → Prop) : Session V S T → Session V S T → Prop
  | write (σ : Session V S T) (w : Write V S T) (h : allowed σ.journal.store w) :
      Step c allowed σ { σ with journal := σ.journal.write c w }
  | list (σ : Session V S T) {listed : ResourceList V S T}
      (h : listRaw c σ.journal.store = .ok listed) :
      Step c allowed σ { σ with lists := listed :: σ.lists }
  | watch (σ : Session V S T) {listed : ResourceList V S T} {stream : WatchStream V S T}
      (hlisted : listed ∈ σ.lists)
      (h : watchRaw c σ.journal.store (.resumingFrom listed) = .ok stream) :
      Step c allowed σ { σ with watches := { listed, stream } :: σ.watches }
  | poll (σ : Session V S T) {before after : List (Watch V S T)} {w : Watch V S T}
      (h : σ.watches = before ++ w :: after) :
      Step c allowed σ { σ with watches := before ++ w.poll σ.journal.store.watchers :: after }

inductive Run [DecidableEq V] (c : Stream V S T)
    (allowed : ResourceStore V S T → Write V S T → Prop) : Session V S T → Prop
  | start : Run c allowed {}
  | tail {σ σ' : Session V S T} (prior : Run c allowed σ) (h : Step c allowed σ σ') :
      Run c allowed σ'

/-- The list as a map by name. -/
def byName (items : List (ResourceObject V S T)) : BTreeMap String (ResourceObject V S T) :=
  BTreeMap.firstBy (fun o => o.metadata.name) items

/-! ### The list -/

variable {new : List (StoredEvent V S T)} {s : ResourceStore V S T}

/-- A list is the object map of the moment, by name. -/
theorem listRaw_ok {c : Stream V S T} {listed : ResourceList V S T} (hs : Keyed s)
    (h : listRaw c s = .ok listed) :
    byName listed.items = s.objects ∧ listed.resourceVersion = toString s.currentVersion ∧
      listed.generation = c.generation := by
  obtain ⟨items, hitems, h⟩ := bind_eq_ok h
  cases h
  refine ⟨?_, rfl, rfl⟩
  have hmem : ∀ o, o ∈ s.objects.toList.map Prod.snd ↔
      ∃ name : String, s.objects[name]? = some o := by
    intro o
    simp only [List.mem_map, Prod.exists, exists_eq_right,
      Std.ExtTreeMap.mem_toList_iff_getElem?_eq_some]
  have hsame : items = s.objects.toList.map Prod.snd := by
    have hdecode : ∀ o ∈ s.objects.toList.map Prod.snd, decodeObject c.kind o = .ok o := by
      intro o ho
      obtain ⟨name, hname⟩ := (hmem o).mp ho
      obtain ⟨decoded, hdecoded⟩ := mapM_eq_ok hitems o ho
      obtain ⟨_, hvalid, hok⟩ := bind_eq_ok hdecoded
      cases hok
      rw [hdecoded, (hs name o hname).2]
    have hmap := mapM_ok hdecode
    rw [hitems, List.map_id'] at hmap
    exact Except.ok.inj hmap
  apply Std.ExtTreeMap.ext_getElem?
  intro name
  show (BTreeMap.firstBy _ _)[name]? = _
  rw [BTreeMap.lookup_firstBy]
  cases hfind : List.find? _ _ with
  | none =>
    refine (Option.eq_none_iff_forall_ne_some.mpr fun o hname => ?_).symm
    have ho : o ∈ items.insertionSort fun a b => a.metadata.name ≤ b.metadata.name := by
      rw [List.mem_insertionSort, hsame, hmem]
      exact ⟨name, hname⟩
    simpa [(hs name o hname).1] using List.find?_eq_none.mp hfind o ho
  | some o =>
    obtain ⟨ho, hname⟩ := of_find? hfind
    rw [List.mem_insertionSort, hsame, hmem] at ho
    obtain ⟨name', ho⟩ := ho
    rw [← (hs name' o ho).1, hname] at ho
    exact ho.symm

/-- A list taken when the history was `n` events long, up to version `v`. -/
structure ListedAt (c : Stream V S T) (j : Journal V S T) (listed : ResourceList V S T)
    (v n : Nat) : Prop where
  version : listed.resourceVersion = toString v
  generation : listed.generation = c.generation
  known : v < j.store.nextVersion
  within : n ≤ j.history.length
  before : ∀ e ∈ j.history.take n, e.version ≤ v
  after : ∀ e ∈ j.history.drop n, v < e.version
  items : byName listed.items = (j.history.take n).foldl applyStored ∅

variable {c : Stream V S T} {j : Journal V S T} {listed : ResourceList V S T} {v n : Nat}

theorem Logged.listedAt (h : Logged j.store j.history)
    (hlisted : listRaw c j.store = .ok listed) :
    ListedAt c j listed j.store.currentVersion j.history.length := by
  obtain ⟨hitems, hversion, hgeneration⟩ := listRaw_ok h.keyed hlisted
  have hcurrent : j.store.currentVersion + 1 = j.store.nextVersion := Nat.sub_add_cancel h.positive
  refine ⟨hversion, hgeneration, by omega, le_rfl, ?_, ?_, ?_⟩
  · intro e he
    have hbelow := h.below e (List.mem_of_mem_take he)
    omega
  · rw [List.drop_length]
    exact fun e he => absurd he List.not_mem_nil
  · rw [List.take_length, hitems]
    exact h.objects

/-- The events after a list are the rest of the history. -/
theorem ListedAt.filter (hl : ListedAt c j listed v n) :
    j.history.filter (fun e => v < e.version) = j.history.drop n := by
  have hfilter := filter_after hl.before hl.after
  rwa [List.take_append_drop] at hfilter

/-- Folding the events after a list onto it gives the current objects. -/
theorem ListedAt.foldl (hl : ListedAt c j listed v n) (h : Logged j.store j.history) :
    (j.history.drop n).foldl applyStored (byName listed.items) = j.store.objects := by
  rw [hl.items, ← List.foldl_append, List.take_append_drop]
  exact h.objects.symm

theorem ListedAt.write [DecidableEq V] (hl : ListedAt c j listed v n)
    (h : Logged j.store j.history) {w : Write V S T} (hfits : w.Fits c j.store) :
    ListedAt c (j.write c w) listed v n := by
  obtain ⟨hcounter, hnew⟩ := h.le_newEvents hfits
  refine ⟨hl.version, hl.generation, hl.known.trans_le hcounter, ?_, ?_, ?_, ?_⟩
  · show n ≤ (j.history ++ _).length
    rw [List.length_append]
    exact Nat.le_add_right_of_le hl.within
  · show ∀ e ∈ (j.history ++ _).take n, e.version ≤ v
    rw [List.take_append_of_le_length hl.within]
    exact hl.before
  · show ∀ e ∈ (j.history ++ _).drop n, v < e.version
    rw [List.drop_append_of_le_length hl.within]
    exact List.forall_mem_append.mpr ⟨hl.after, fun e he => hl.known.trans_le (hnew e he)⟩
  · show byName listed.items = ((j.history ++ _).take n).foldl applyStored ∅
    rw [List.take_append_of_le_length hl.within]
    exact hl.items

/-- **A watch from an earlier list opens, or is expired**; it opens with the
events after the list still to be replayed. -/
theorem ListedAt.watchRaw (hl : ListedAt c j listed v n) (h : Logged j.store j.history) :
    Memory.watchRaw c j.store (.resumingFrom listed) =
      if v < j.store.compactedThrough then
        .error (.watchExpired (toString v) (some (toString j.store.compactedThrough)))
      else
        .ok ⟨c.generation, j.store.eventLog.filter fun e => v < e.version,
          some j.store.watchers.sent⟩ := by
  have hmax : v ≤ u64Max := hl.known.le.trans h.counter
  have hposition : parsePosition listed.resourceVersion = .ok v := by
    unfold parsePosition
    rw [hl.version, parseU64_toString hmax]
  have hreplay : replayFrom c.generation (.resumingFrom listed) = .ok (some v) := by
    unfold WatchStart.resumingFrom
    rw [hl.generation]
    cases c.generation <;> simp [replayFrom, hposition, Except.map]
  have hahead : ¬ j.store.currentVersion < v := by
    have hknown := hl.known
    unfold ResourceStore.currentVersion
    omega
  unfold Memory.watchRaw
  rw [hreplay]
  show openWatch c j.store (some v) = _
  unfold openWatch
  simp only [if_neg hahead]

/-! ### The watch -/

/-- The events of the history after a version, as a watch yields them. -/
def eventsAfter (j : Journal V S T) (v : Nat) : List (SerializedWatchEvent V S T) :=
  (j.history.filter fun e => v < e.version).map StoredEvent.serialized

/-- What a watch from version `v` yielded and still holds is what came after `v`;
once it lagged it holds nothing more. -/
structure Follows (j : Journal V S T) (v : Nat) (w : Watch V S T) : Prop where
  live : ∀ position, w.stream.receiver = some position →
    position ≤ j.history.length ∧ w.failures = [] ∧
      w.yielded ++ (w.stream.replay ++ j.history.drop position).map StoredEvent.serialized =
        eventsAfter j v
  ended : w.stream.receiver = none →
    w.stream.replay = [] ∧ w.failures = [lagged] ∧ w.yielded <+: eventsAfter j v

variable {w : Watch V S T}

theorem Follows.yielded_prefix (hw : Follows j v w) : w.yielded <+: eventsAfter j v := by
  cases hreceiver : w.stream.receiver with
  | none => exact (hw.ended hreceiver).2.2
  | some position =>
    obtain ⟨-, -, hyielded⟩ := hw.live position hreceiver
    exact ⟨_, hyielded⟩

theorem eventsAfter_append (hnew : ∀ e ∈ new, v < e.version) :
    eventsAfter ⟨s, j.history ++ new⟩ v = eventsAfter j v ++ new.map StoredEvent.serialized := by
  have hall : new.filter (fun e => v < e.version) = new := by
    rw [List.filter_eq_self]
    exact fun e he => decide_eq_true (hnew e he)
  unfold eventsAfter
  rw [List.filter_append, hall, List.map_append]

theorem Follows.append (hw : Follows j v w) (hnew : ∀ e ∈ new, v < e.version) :
    Follows ⟨s, j.history ++ new⟩ v w where
  live := by
    intro position hreceiver
    obtain ⟨hposition, hfailures, hyielded⟩ := hw.live position hreceiver
    refine ⟨?_, hfailures, ?_⟩
    · rw [List.length_append]
      exact Nat.le_add_right_of_le hposition
    · rw [eventsAfter_append hnew, ← hyielded, List.drop_append_of_le_length hposition]
      simp only [List.map_append, List.append_assoc]
  ended := by
    intro hreceiver
    obtain ⟨hreplay, hfailures, hyielded⟩ := hw.ended hreceiver
    rw [eventsAfter_append hnew]
    exact ⟨hreplay, hfailures, hyielded.trans (List.prefix_append _ _)⟩

theorem Follows.of_live {position : Nat} (hreceiver : w.stream.receiver = some position)
    (hposition : position ≤ j.history.length) (hfailures : w.failures = [])
    (hyielded : w.yielded ++
      (w.stream.replay ++ j.history.drop position).map StoredEvent.serialized =
        eventsAfter j v) : Follows j v w where
  live := by
    intro position' hreceiver'
    rw [hreceiver] at hreceiver'
    cases hreceiver'
    exact ⟨hposition, hfailures, hyielded⟩
  ended := by
    intro hnone
    rw [hreceiver] at hnone
    cases hnone

/-- A watch that has just opened. -/
theorem Logged.follows (h : Logged j.store j.history) (hv : j.store.compactedThrough ≤ v) :
    Follows j v { listed, stream := ⟨c.generation, j.store.eventLog.filter fun e => v < e.version,
      some j.store.watchers.sent⟩ } := by
  refine .of_live rfl h.sent.le rfl ?_
  rw [h.sent, List.drop_length, List.append_nil, List.nil_append, h.retained.replay hv]
  rfl

/-- What a poll can return. -/
def PollOutcome (j : Journal V S T) (v : Nat) (w : Watch V S T) : Poll V S T → Prop
  | .item e => w.yielded ++ [e] <+: eventsAfter j v
  | .failed e => e = lagged
  | .pending => w.yielded = eventsAfter j v
  | .ended => w.failures = [lagged]

section Polling

variable {position : Nat}

theorem Follows.poll_replay (hw : Follows j v w) (channel : WatchChannel (StoredEvent V S T))
    (hreceiver : w.stream.receiver = some position) {e : StoredEvent V S T}
    {rest : List (StoredEvent V S T)} (hreplay : w.stream.replay = e :: rest) :
    PollOutcome j v w (w.stream.poll channel).1 ∧ Follows j v (w.poll channel) := by
  obtain ⟨hposition, hfailures, hyielded⟩ := hw.live position hreceiver
  have hpoll : w.stream.poll channel = (.item e.serialized, { w.stream with replay := rest }) := by
    simp only [WatchStream.poll, hreplay]
  have hnext : (w.yielded ++ [e.serialized]) ++
      (rest ++ j.history.drop position).map StoredEvent.serialized = eventsAfter j v := by
    rw [← hyielded, hreplay]
    simp
  simp only [Watch.poll, hpoll]
  exact ⟨⟨_, hnext⟩, .of_live hreceiver hposition hfailures hnext⟩

theorem Follows.poll_lag (hw : Follows j v w) {channel : WatchChannel (StoredEvent V S T)}
    (hreceiver : w.stream.receiver = some position) (hreplay : w.stream.replay = [])
    (hlag : watchRingCapacity < channel.sent - position) :
    PollOutcome j v w (w.stream.poll channel).1 ∧ Follows j v (w.poll channel) := by
  obtain ⟨-, hfailures, -⟩ := hw.live position hreceiver
  have hpoll : w.stream.poll channel = (.failed lagged, { w.stream with receiver := none }) := by
    simp only [WatchStream.poll, hreplay, hreceiver, if_pos hlag]
  simp only [Watch.poll, hpoll]
  refine ⟨rfl, ⟨?_, ?_⟩⟩
  · intro position' hsome
    cases hsome
  · intro _
    refine ⟨hreplay, ?_, hw.yielded_prefix⟩
    rw [hfailures]
    rfl

theorem Follows.poll_ring (hw : Follows j v w) (h : Logged j.store j.history)
    (hreceiver : w.stream.receiver = some position) (hreplay : w.stream.replay = [])
    (hlag : ¬ watchRingCapacity < j.store.watchers.sent - position) :
    PollOutcome j v w (w.stream.poll j.store.watchers).1 ∧
      Follows j v (w.poll j.store.watchers) := by
  obtain ⟨hposition, hfailures, hyielded⟩ := hw.live position hreceiver
  rw [hreplay, List.nil_append] at hyielded
  have hlookup : j.store.watchers.ring[j.store.watchers.ring.length -
      (j.store.watchers.sent - position)]? = j.history[position]? := by
    rw [h.sent] at hlag ⊢
    exact h.ring.lookup (not_lt.mp hlag) hposition
  cases hnext : j.history[position]? with
  | none =>
    have hpoll : w.stream.poll j.store.watchers = (.pending, w.stream) := by
      simp only [WatchStream.poll, hreplay, hreceiver, if_neg hlag, hlookup, hnext]
    rw [List.getElem?_eq_none_iff] at hnext
    rw [List.drop_eq_nil_of_le hnext, List.map_nil, List.append_nil] at hyielded
    simp only [Watch.poll, hpoll]
    exact ⟨hyielded, hw⟩
  | some e =>
    have hpoll : w.stream.poll j.store.watchers =
        (.item e.serialized, { w.stream with receiver := some (position + 1) }) := by
      simp only [WatchStream.poll, hreplay, hreceiver, if_neg hlag, hlookup, hnext]
    obtain ⟨hlt, rfl⟩ := List.getElem?_eq_some_iff.mp hnext
    have hrest : (w.yielded ++ [(j.history[position]).serialized]) ++
        (w.stream.replay ++ j.history.drop (position + 1)).map StoredEvent.serialized =
          eventsAfter j v := by
      rw [← hyielded, List.drop_eq_getElem_cons hlt, hreplay, List.nil_append, List.map_cons,
        List.append_assoc, List.singleton_append]
    simp only [Watch.poll, hpoll]
    exact ⟨⟨_, hrest⟩, .of_live rfl hlt hfailures hrest⟩

/-- **A poll gives the next event after the list, reports the lag, or has nothing
to give**, and the watch goes on from there. -/
theorem Follows.poll (hw : Follows j v w) (h : Logged j.store j.history) :
    PollOutcome j v w (w.stream.poll j.store.watchers).1 ∧
      Follows j v (w.poll j.store.watchers) := by
  cases hreceiver : w.stream.receiver with
  | none =>
    obtain ⟨hreplay, hfailures, -⟩ := hw.ended hreceiver
    have hpoll : w.stream.poll j.store.watchers = (.ended, w.stream) := by
      simp only [WatchStream.poll, hreplay, hreceiver]
    simp only [Watch.poll, hpoll]
    exact ⟨hfailures, hw⟩
  | some position =>
    cases hreplay : w.stream.replay with
    | cons e rest => exact hw.poll_replay _ hreceiver hreplay
    | nil =>
      by_cases hlag : watchRingCapacity < j.store.watchers.sent - position
      · exact hw.poll_lag hreceiver hreplay hlag
      · exact hw.poll_ring h hreceiver hreplay hlag

end Polling

/-! ### Every interleaving -/

/-- The invariant of a session. -/
structure Coherent (c : Stream V S T) (σ : Session V S T) : Prop where
  logged : Logged σ.journal.store σ.journal.history
  lists : ∀ listed ∈ σ.lists, ∃ v n, ListedAt c σ.journal listed v n
  watches : ∀ w ∈ σ.watches, ∃ v n, ListedAt c σ.journal w.listed v n ∧ Follows σ.journal v w

variable [DecidableEq V] {σ σ' : Session V S T}

theorem Coherent.step (hσ : Coherent c σ) (h : Step c (Write.Fits c) σ σ') : Coherent c σ' := by
  cases h with
  | write w hfits =>
    refine ⟨hσ.logged.write hfits, ?_, ?_⟩
    · intro listed hlisted
      obtain ⟨v, n, hl⟩ := hσ.lists listed hlisted
      exact ⟨v, n, hl.write hσ.logged hfits⟩
    · intro watch hwatch
      obtain ⟨v, n, hl, hw⟩ := hσ.watches watch hwatch
      refine ⟨v, n, hl.write hσ.logged hfits, hw.append ?_⟩
      intro e he
      exact hl.known.trans_le ((hσ.logged.le_newEvents hfits).2 e he)
  | list hlisted =>
    exact ⟨hσ.logged, List.forall_mem_cons.mpr ⟨⟨_, _, hσ.logged.listedAt hlisted⟩, hσ.lists⟩,
      hσ.watches⟩
  | watch hlisted hwatch =>
    refine ⟨hσ.logged, hσ.lists, List.forall_mem_cons.mpr ⟨?_, hσ.watches⟩⟩
    obtain ⟨v, n, hl⟩ := hσ.lists _ hlisted
    rw [hl.watchRaw hσ.logged] at hwatch
    obtain ⟨hfloor, hwatch⟩ := of_ite_else hwatch (by rintro ⟨⟩)
    cases hwatch
    exact ⟨v, n, hl, hσ.logged.follows (not_lt.mp hfloor)⟩
  | @poll before after w hsplit =>
    refine ⟨hσ.logged, hσ.lists, ?_⟩
    intro w' hw'
    have hold : ∀ w' ∈ before ++ w :: after, ∃ v n,
        ListedAt c σ.journal w'.listed v n ∧ Follows σ.journal v w' := hsplit ▸ hσ.watches
    rcases List.mem_append.mp hw' with hbefore | hrest
    · exact hold w' (List.mem_append_left _ hbefore)
    · rcases List.mem_cons.mp hrest with rfl | hafter
      · obtain ⟨v, n, hl, hw⟩ := hold w (by simp)
        refine ⟨v, n, ?_, (hw.poll hσ.logged).2⟩
        have hlisted : (w.poll σ.journal.store.watchers).listed = w.listed := by
          unfold Watch.poll
          split <;> rfl
        rw [hlisted]
        exact hl
      · exact hold w' (by simp [hafter])

theorem coherent_run (h : Run c (Write.Fits c) σ) : Coherent c σ := by
  induction h with
  | start =>
    exact ⟨logged_start, fun _ h => absurd h List.not_mem_nil,
      fun _ h => absurd h List.not_mem_nil⟩
  | tail _ hstep ih => exact ih.step hstep

/-- **A watch from an earlier list is expired, or yields exactly the events after
the list, in increasing order of their versions**, in every run that does not
wrap the counter: nothing is lost or repeated by any poll, and the events after
the list take it to the current objects. -/
theorem run_watch (c : Stream V S T) {σ : Session V S T} (h : Run c (Write.Fits c) σ) :
    (∀ listed ∈ σ.lists,
      (∃ requested floor, watchRaw c σ.journal.store (.resumingFrom listed) =
        .error (.watchExpired requested floor)) ∨
      ∃ stream, watchRaw c σ.journal.store (.resumingFrom listed) = .ok stream) ∧
    Increasing StoredEvent.version σ.journal.history ∧
    (∀ e ∈ σ.journal.history, e.object.resourceVersion = toString e.version) ∧
    ∀ w ∈ σ.watches, ∃ v, w.listed.resourceVersion = toString v ∧
      w.yielded <+: eventsAfter σ.journal v ∧
      PollOutcome σ.journal v w (w.stream.poll σ.journal.store.watchers).1 ∧
      (eventsAfter σ.journal v).foldl SerializedWatchEvent.applyTo (byName w.listed.items) =
        σ.journal.store.objects := by
  have hσ := coherent_run h
  refine ⟨?_, hσ.logged.increasing, hσ.logged.stamped, ?_⟩
  · intro listed hlisted
    obtain ⟨v, n, hl⟩ := hσ.lists listed hlisted
    rw [hl.watchRaw hσ.logged]
    split
    · exact .inl ⟨_, _, rfl⟩
    · exact .inr ⟨_, rfl⟩
  · intro w hw
    obtain ⟨v, n, hl, hfollows⟩ := hσ.watches w hw
    refine ⟨v, hl.version, hfollows.yielded_prefix, (hfollows.poll hσ.logged).1, ?_⟩
    unfold eventsAfter
    rw [hl.filter, List.foldl_map]
    exact hl.foldl hσ.logged

/-! ### A watched stream -/

def heldEvent (name : String) (version : Nat) : ResourceObject Unit EventTree Unit :=
  createdObject "flotilla" 0 { name } { reason := some "Synced", message := "held" } none none
    version

/-- The list of a stream with one event. -/
def firstList : ResourceList Unit EventTree Unit where
  items := [heldEvent "a" 1]
  resourceVersion := "1"
  generation := none

/-- The watch from that list, opened after a second event. -/
def secondWatch : Watch Unit EventTree Unit where
  listed := firstList
  stream := ⟨none, [⟨2, .added, .object (heldEvent "b" 2)⟩], some 2⟩

/-- The second event is replayed, and a deletion comes live. -/
theorem run_watch_replayed :
    ∃ σ : Session Unit EventTree Unit, Run eventStream (Write.Fits eventStream) σ ∧
      ∃ w ∈ σ.watches, w.yielded.length = 2 ∧ ∃ v, w.listed.resourceVersion = toString v ∧
        w.yielded <+: eventsAfter σ.journal v ∧
        (eventsAfter σ.journal v).foldl SerializedWatchEvent.applyTo (byName w.listed.items) =
          σ.journal.store.objects := by
  have hcreate := Run.tail .start (.write {} (createEvent "a")
    (Write.fits_of_counter_lt (by decide +kernel)) :
      Step eventStream (Write.Fits eventStream) _ _)
  obtain ⟨_, hlisted, rfl⟩ := exists_ok (f := fun listed => listed) (b := firstList)
    (x := listRaw eventStream (Journal.writes eventStream {} [createEvent "a"]).store)
    (by decide +kernel)
  have hlist := Run.tail hcreate (.list _ hlisted)
  have hsecond := Run.tail hlist (.write _ (createEvent "b")
    (Write.fits_of_counter_lt (by decide +kernel)))
  obtain ⟨_, hwatched, rfl⟩ := exists_ok (f := fun stream => stream) (b := secondWatch.stream)
    (x := watchRaw eventStream
      (Journal.writes eventStream {} [createEvent "a", createEvent "b"]).store
      (.resumingFrom firstList))
    (by decide +kernel)
  have hwatch := Run.tail hsecond (.watch _ List.mem_cons_self hwatched)
  have hdelete := Run.tail hwatch (.write _ (.delete 1 "a")
    (Write.fits_of_counter_lt (by decide +kernel)))
  have hpoll := Run.tail hdelete (.poll _ (List.nil_append _).symm)
  have hpoll' := Run.tail hpoll (.poll _ (List.nil_append _).symm)
  refine ⟨_, hpoll', _, List.mem_cons_self, by decide +kernel, ?_⟩
  obtain ⟨v, hversion, hyielded, -, hfold⟩ :=
    (run_watch eventStream hpoll').2.2.2 _ List.mem_cons_self
  exact ⟨v, hversion, hyielded, hfold⟩

/-- The list after a tombstone that took the last version. -/
def wrappedList : ResourceList Unit EventTree Unit where
  items := []
  resourceVersion := "0"
  generation := none

/-- A tombstone may ask for the last version.  The counter then wraps, the next list
reads version zero, and a watch from it replays the tombstone from before the
list and then follows with version zero. -/
theorem run_watch_wraps :
    ∃ σ : Session Unit EventTree Unit, Run eventStream (fun _ _ => True) σ ∧
      ∃ w ∈ σ.watches, w.listed = wrappedList ∧
        w.yielded.map (fun e => e.payload.resourceVersion) = [toString u64Max, "0"] := by
  have htombstone := Run.tail .start (.write {} (.tombstone "a" (some (toString u64Max))) trivial :
    Step eventStream (fun _ _ => True) _ _)
  obtain ⟨_, hlisted, rfl⟩ := exists_ok (f := fun listed => listed) (b := wrappedList)
    (x := listRaw eventStream
      (Journal.writes eventStream {} [.tombstone "a" (some (toString u64Max))]).store)
    (by decide +kernel)
  have hlist := Run.tail htombstone (.list _ hlisted)
  obtain ⟨_, hwatched, -⟩ := exists_ok
    (f := fun stream => (stream.generation, stream.receiver))
    (b := (none, some 1))
    (x := watchRaw eventStream
      (Journal.writes eventStream {} [.tombstone "a" (some (toString u64Max))]).store
      (.resumingFrom wrappedList))
    (by decide +kernel)
  have hwatch := Run.tail hlist (.watch _ List.mem_cons_self hwatched)
  have hcreate := Run.tail hwatch (.write _ (createEvent "b") trivial)
  have hpoll := Run.tail hcreate (.poll _ (List.nil_append _).symm)
  have hpoll' := Run.tail hpoll (.poll _ (List.nil_append _).symm)
  cases hwatched
  exact ⟨_, hpoll', _, List.mem_cons_self, rfl, by decide +kernel⟩

end Flotilla.Memory
