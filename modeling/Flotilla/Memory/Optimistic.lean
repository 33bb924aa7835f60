import Flotilla.Memory.Log

/-!
# Clients that write what they read

A client reads an object and later sends an update or a status update with the
version it read; in between any client may write anything.  Versions are never
taken twice, so the stored object is the body of the last event of its name, and
an update that finds the version it asks for finds the very write it read.

`updates_optimistic` is the result over all interleavings.  It needs the counter
not to wrap: `updates_lost` is a wrapped one.
-/

namespace Flotilla.Memory

open Lib
open Lib.EventLog Std

variable {V S T : Type} [DecidableEq V] {c : Stream V S T} {j : Journal V S T} {w : Write V S T}
  {ws : List (Write V S T)} {u : Update V S T} {resourceVersion : String}

/-! ### The last write of an object -/

/-- A stored object is the body of the last event of its name. -/
def Latest (j : Journal V S T) : Prop :=
  ∀ name o, j.store.objects[name]? = some o → ∃ front e rest, j.history = front ++ e :: rest ∧
    e.object = .object o ∧ ∀ e' ∈ rest, e'.object.name ≠ name

/-- No write of the sequence wraps the counter. -/
def Journal.Fits (c : Stream V S T) : Journal V S T → List (Write V S T) → Prop
  | _, [] => True
  | j, w :: ws => w.Fits c j.store ∧ (j.write c w).Fits c ws

omit [DecidableEq V] in
/-- What is stored under a name after an event is the event's, or of another name's event. -/
theorem lookup_applyStored {objects : BTreeMap String (ResourceObject V S T)} {version : Nat}
    {change : Change V S T} {name : String} {o : ResourceObject V S T}
    (h : (applyStored objects (change.event version))[name]? = some o) :
    (change.event version).object = .object o ∨
      objects[name]? = some o ∧ (change.event version).object.name ≠ name := by
  cases change with
  | added name' o' | modified name' o' =>
    rcases BTreeMap.of_lookup_insert h with ⟨-, rfl⟩ | ⟨hname, h⟩
    · exact .inl rfl
    · exact .inr ⟨h, hname⟩
  | deleted _ _ | tombstone _ =>
    exact .inr (BTreeMap.of_lookup_erase h).symm

theorem Latest.write (h : Latest j) (hlogged : Logged j.store j.history)
    (hfits : w.Fits c j.store) : Latest (j.write c w) := by
  have heffect := w.effect (c := c) hlogged.keyed
  unfold Journal.write
  generalize w.run c j.store = s' at heffect
  have hquiet : ∀ n, newEvents j.store { j.store with nextVersion := n } = [] :=
    fun n => newEvents_of_watchers_eq rfl
  rcases heffect.cases (w.counter_le hlogged.counter) hfits with
    rfl | ⟨-, ⟨-, rfl⟩ | ⟨change, hchange, rfl⟩⟩
  · rwa [hquiet, List.append_nil]
  · rwa [hquiet, List.append_nil]
  · have hsame : newEvents j.store =
        newEvents { j.store with nextVersion := w.counter j.store } := rfl
    rw [hsame, newEvents_commit]
    intro name o ho
    rw [commit_objects (s := { j.store with nextVersion := w.counter j.store + 1 }) hchange] at ho
    rcases lookup_applyStored ho with he | ⟨ho, hname⟩
    · exact ⟨j.history, _, [], rfl, he, fun _ h => absurd h List.not_mem_nil⟩
    · obtain ⟨front, e, rest, hhistory, he, hrest⟩ := h name o ho
      refine ⟨front, e, rest ++ [change.event (w.counter j.store)], by simp [hhistory], he, ?_⟩
      intro e' he'
      rcases List.mem_append.mp he' with he' | he'
      · exact hrest e' he'
      · rwa [List.mem_singleton.mp he']

/-- A sequence of writes appends to the history. -/
theorem Journal.writes_spec (h : Latest j) (hlogged : Logged j.store j.history)
    (hfits : j.Fits c ws) : Latest (j.writes c ws) ∧
      Logged (j.writes c ws).store (j.writes c ws).history ∧
      j.history <+: (j.writes c ws).history := by
  induction ws generalizing j with
  | nil => exact ⟨h, hlogged, List.prefix_rfl⟩
  | cons w ws ih =>
    obtain ⟨hlatest, hlogged', hprefix⟩ := ih (h.write hlogged hfits.1)
      (hlogged.write hfits.1) hfits.2
    exact ⟨hlatest, hlogged', (List.prefix_append _ _).trans hprefix⟩

omit [DecidableEq V] in
/-- An object that is stored at the version of an earlier one is that one, not written since. -/
theorem Latest.unwritten {read : Journal V S T} (h : Latest j) (hread : Latest read)
    (hlogged : Logged j.store j.history) {new : List (StoredEvent V S T)}
    (hnew : j.history = read.history ++ new) {name : String} {o row : ResourceObject V S T}
    (ho : read.store.objects[name]? = some o) (hrow : j.store.objects[name]? = some row)
    (hversion : row.metadata.resourceVersion = o.metadata.resourceVersion) :
    (∀ e ∈ new, e.object.name ≠ name) ∧ row = o := by
  obtain ⟨front, e, rest, hhistory, he, hrest⟩ := h name row hrow
  obtain ⟨front₀, e₀, rest₀, hhistory₀, he₀, -⟩ := hread name o ho
  have hmem : e ∈ j.history := by simp [hhistory]
  have hmem₀ : e₀ ∈ read.history := by simp [hhistory₀]
  -- a version is read back from its text, and no two events have one version
  have hparse : ∀ {a}, a ∈ j.history → parseU64 a.object.resourceVersion = some a.version := by
    intro a ha
    rw [hlogged.stamped a ha]
    exact parseU64_toString ((hlogged.below a ha).le.trans hlogged.counter)
  have hincreasing := hlogged.increasing
  have hversions : (j.history.map StoredEvent.version).Nodup :=
    List.pairwise_map.mpr (hincreasing.imp Nat.ne_of_lt)
  have hmem₀' : e₀ ∈ j.history := hnew ▸ List.mem_append_left _ hmem₀
  obtain rfl : e = e₀ := by
    refine List.inj_on_of_nodup_map hversions hmem hmem₀' (Option.some.inj ?_)
    rw [← hparse hmem, ← hparse hmem₀', he, he₀]
    exact congrArg parseU64 hversion
  refine ⟨?_, StoredBody.object.inj (he.symm.trans he₀)⟩
  -- a write of the name since then comes after the one read and not after the one stored
  intro e' he' hname
  have hmem' : e' ∈ front ++ e :: rest := hhistory ▸ hnew ▸ List.mem_append_right _ he'
  have hafter : e.version < e'.version := by
    rw [hnew] at hincreasing
    exact (List.pairwise_append.mp hincreasing).2.2 e hmem₀ e' he'
  rw [hhistory] at hincreasing
  rcases List.mem_append.mp hmem' with hfront | hrear
  · exact hafter.asymm ((List.pairwise_append.mp hincreasing).2.2 e' hfront e (by simp))
  · rcases List.mem_cons.mp hrear with rfl | hrear
    · exact hafter.false
    · exact hrest e' hrear hname

/-! ### Interleavings -/

def Update.toWrite (resourceVersion : String) : Update V S T → Write V S T
  | .ofSpec input spec merge => .update input resourceVersion spec merge
  | .ofStatus name status => .updateStatus name resourceVersion status

theorem Update.run_toWrite :
    (u.toWrite resourceVersion).run c j.store =
      (runPlan c j.store (u.plan c j.store resourceVersion)).1 := by
  cases u <;> rfl

theorem Update.encodes_toWrite (h : (u.toWrite resourceVersion).Encodes c j.store) :
    Encodes (u.plan c j.store resourceVersion) j.store.nextVersion := by
  cases u <;> exact h

theorem Update.fits_toWrite (h : (u.toWrite resourceVersion).Fits c j.store)
    (htakes : Takes (u.plan c j.store resourceVersion)) :
    c.overflowChecks = true ∨ j.store.nextVersion ≠ u64Max := by
  cases u <;> exact h.imp_right fun hfits => hfits htakes

theorem Journal.write_unchanged (h : w.run c j.store = j.store) : j.write c w = j := by
  unfold Journal.write
  rw [h, newEvents_of_watchers_eq rfl, List.append_nil]

/-- **Updates at the version that was read**, after any writes before and after the read that do
not wrap the counter.  One that succeeds finds the object as it was read, with no write of it in
between, and logs what it sets on top of that object, if it sets anything; one that fails changes
nothing.  The objects are the logged ones, applied in the order of their versions. -/
theorem updates_optimistic (c : Stream V S T) (before between : List (Write V S T))
    (u : Update V S T) (o : ResourceObject V S T)
    (hread : (Journal.writes c {} before).store.objects[u.name]? = some o)
    (hbefore : Journal.Fits c {} before)
    (hbetween : (Journal.writes c {} before).Fits c between)
    (hfits : (u.toWrite o.metadata.resourceVersion).Fits c
      ((Journal.writes c {} before).writes c between).store)
    (hencodes : (u.toWrite o.metadata.resourceVersion).Encodes c
      ((Journal.writes c {} before).writes c between).store) :
    let read := Journal.writes c {} before
    let j := read.writes c between
    let last := j.write c (u.toWrite o.metadata.resourceVersion)
    let out := (runPlan c j.store (u.plan c j.store o.metadata.resourceVersion)).2
    (∀ a, out = .ok a → j.store.objects[u.name]? = some o ∧
      (∃ new, j.history = read.history ++ new ∧ ∀ e ∈ new, e.object.name ≠ u.name) ∧
      (last = j ∧ a = o ∨ u.Builds c.kind j.store.nextVersion o a ∧ ∃ kind,
        last.history = j.history ++ [⟨j.store.nextVersion, kind, .object a.stripped⟩])) ∧
    ((∀ a, out ≠ .ok a) → last = j) ∧
    Increasing StoredEvent.version last.history ∧
      last.store.objects = last.history.foldl applyStored ∅ := by
  intro read j last out
  have hempty : Latest ({} : Journal V S T) := fun name o h => by simp at h
  obtain ⟨hlatest₀, hlogged₀, -⟩ := Journal.writes_spec hempty logged_start hbefore
  obtain ⟨hlatest, hlogged, new, hnew⟩ := Journal.writes_spec hlatest₀ hlogged₀ hbetween
  have hlast : Logged last.store last.history := hlogged.write hfits
  have hstep : last = ⟨_, _⟩ := rfl
  rw [Update.run_toWrite] at hstep
  -- whatever the update found at its version is the object that was read
  have hfound : ∀ {plan}, u.plan c j.store o.metadata.resourceVersion = .ok plan →
      j.store.objects[u.name]? = some o ∧ o.stripped = o ∧ ∀ e ∈ new, e.object.name ≠ u.name := by
    intro plan hplan
    obtain ⟨row, hrow, hversion, -⟩ := Update.plan_reads hplan
    obtain ⟨hunwritten, rfl⟩ := hlatest.unwritten hlatest₀ hlogged hnew.symm hread hrow hversion
    exact ⟨hrow, (hlogged.keyed _ row hrow).2, hunwritten⟩
  rcases hrun : runPlan c j.store (u.plan c j.store o.metadata.resourceVersion) with ⟨s', out'⟩
  have hout : out = out' := congrArg Prod.snd hrun
  rw [hrun] at hstep
  have hsame : s' = j.store → last = j := fun h =>
    Journal.write_unchanged (Update.run_toWrite.trans ((congrArg Prod.fst hrun).trans h))
  refine ⟨?_, ?_, hlast.increasing, hlast.objects⟩
  · intro a ha
    rcases runPlan_cases hrun with ⟨hs, hdone⟩ | ⟨_, -, -, -, hfails⟩ |
        ⟨next, hnext, prepare, change, a', hplan, hprepare, hok, rfl⟩
    · have hplan := hdone a (hout ▸ ha)
      obtain ⟨hrow, hstripped, hunwritten⟩ := hfound hplan
      obtain ⟨row, hrow', -, hrow''⟩ := Update.plan_reads hplan
      cases hrow.symm.trans hrow'
      exact ⟨hrow, ⟨new, hnew.symm, hunwritten⟩, .inl ⟨hsame hs, hrow''.trans hstripped⟩⟩
    · exact absurd (hout ▸ ha) (hfails a)
    · obtain ⟨hrow, hstripped, hunwritten⟩ := hfound hplan
      obtain ⟨row, hrow', -, hwrite⟩ := Update.plan_reads hplan
      cases hrow.symm.trans hrow'
      cases hok.symm.trans (hout.symm.trans ha)
      obtain ⟨hbuilds, hchange⟩ := hwrite _ _ _ hprepare
      rw [hstripped] at hbuilds
      obtain ⟨-, rfl⟩ := increment_eq_some hlogged.counter hnext
        (Update.fits_toWrite hfits ⟨prepare, hplan⟩)
      rw [newEvents_commit] at hstep
      refine ⟨hrow, ⟨new, hnew.symm, hunwritten⟩, .inr ⟨hbuilds, ?_⟩⟩
      rw [hstep]
      rcases hchange with rfl | rfl
      · exact ⟨.modified, rfl⟩
      · exact ⟨.deleted, rfl⟩
  · intro hfails
    rcases runPlan_cases hrun with ⟨hs, -⟩ | ⟨_, -, ⟨prepare, e, hplan, herror⟩, -, -⟩ |
        ⟨_, -, _, _, a, -, -, hok, -⟩
    · exact hsame hs
    · obtain ⟨_, hprepare⟩ := Update.encodes_toWrite hencodes prepare hplan
      cases herror.symm.trans hprepare
    · exact absurd (hout.trans hok) (hfails a)

/-! ### Two clients of one event -/

def renameEvent (message : String) : Update Unit EventTree Unit :=
  .ofSpec { name := "a" } { reason := some "Synced", message } none

/-- Another object is created between the read and the update. -/
theorem updates_optimistic_created :
    let read := Journal.writes eventStream {} [createEvent "a"]
    let j := read.writes eventStream [createEvent "b"]
    ∃ o a, read.store.objects["a"]? = some o ∧ o.metadata.resourceVersion = "1" ∧
      (runPlan eventStream j.store ((renameEvent "new").plan eventStream j.store "1")).2 = .ok a ∧
      j.store.objects["a"]? = some o := by
  intro read j
  have h := updates_optimistic eventStream [createEvent "a"] [createEvent "b"] (renameEvent "new") _
    rfl ⟨Write.fits_of_counter_lt (by decide +kernel), trivial⟩
    ⟨Write.fits_of_counter_lt (by decide +kernel), trivial⟩
    (Write.fits_of_counter_lt (by decide +kernel)) (eventStream_encodes _ _)
  exact ⟨_, _, rfl, rfl, rfl, (h.1 _ rfl).1⟩

/-- After a tombstone of the last version the counter starts again, and two more updates bring the
event back to version 1: a client that read the first version 1 overwrites both. -/
theorem updates_lost :
    let read := Journal.writes eventStream {} [createEvent "a"]
    let j := read.writes eventStream [.tombstone "b" (some (toString u64Max)),
      (renameEvent "second").toWrite "1", (renameEvent "third").toWrite "0"]
    let r := runPlan eventStream j.store ((renameEvent "late").plan eventStream j.store "1")
    read.store.objects["a"]?.map (·.metadata.resourceVersion) = some "1" ∧
      r.2.toOption.map (·.spec.message) = some "late" ∧
      (j.history.drop read.history.length).map (·.object.name) = ["b", "a", "a"] := by
  decide +kernel

end Flotilla.Memory
