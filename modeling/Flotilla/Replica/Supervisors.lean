import Flotilla.Lib.BTreeMap

/-!
# Replication generations of peers

A supervisor keeps one active replication generation for each peer.  A connection notice
begins a newer one and a teardown of the active one removes it, together with what a stale
notice would be compared with.

* `runs_current_iff` : along a run of notices the recorded generation of every peer is never
  older than one already begun exactly when no notice that finds no generation recorded is
  older than one already begun.
-/

namespace Flotilla.Replica

open Lib

structure ActiveGeneration where
  generation : Nat
  cancellation : Nat
  socketPath : Option String

/-- The active generations; tokens are numbered as they are made. -/
structure PeerReplicatorSupervisors where
  generations : BTreeMap String ActiveGeneration := ∅
  tokens : Nat := 0
  cancelled : List Nat := []

inductive PeerConnectionEvent where
  | connected (peer : String) (generation : Nat) (resourceSocketPath : Option String)
  | disconnected (peer : String) (generation : Nat)

namespace PeerReplicatorSupervisors

variable (s : PeerReplicatorSupervisors) (peer : String) (generation : Nat)

/-- Record a new generation under a new token. -/
def insertGeneration (resourceSocketPath : Option String) : PeerReplicatorSupervisors :=
  { s with
    generations := s.generations.insert peer ⟨generation, s.tokens, resourceSocketPath⟩
    tokens := s.tokens + 1 }

/-- The token of the generation begun, if one was. -/
def beginGeneration (resourceSocketPath : Option String) : PeerReplicatorSupervisors × Option Nat :=
  match s.generations[peer]? with
  | some active =>
    if generation ≤ active.generation then
      if generation = active.generation then
        let active := { active with socketPath := resourceSocketPath.or active.socketPath }
        ({ s with generations := s.generations.insert peer active }, none)
      else (s, none)
    else
      let s := { s with cancelled := active.cancellation :: s.cancelled }
      (s.insertGeneration peer generation resourceSocketPath, some s.tokens)
  | none => (s.insertGeneration peer generation resourceSocketPath, some s.tokens)

def peerDisconnected :
    PeerReplicatorSupervisors :=
  match s.generations[peer]? with
  | some active =>
    if active.generation = generation then
      { s with
        generations := s.generations.erase peer
        cancelled := active.cancellation :: s.cancelled }
    else s
  | none => s

/-- A notice begins a generation newer than the recorded one, or refreshes or ignores it. -/
theorem beginGeneration_cases (path : Option String) :
    (∃ a : ActiveGeneration, a.generation = generation ∧
        (s.beginGeneration peer generation path).1.generations = s.generations.insert peer a ∧
        (s.beginGeneration peer generation path).2.isSome = true ∧
        ∀ active, s.generations[peer]? = some active → active.generation < generation) ∨
      ((s.beginGeneration peer generation path).2.isSome = false ∧
        ∃ active, s.generations[peer]? = some active ∧
          ((s.beginGeneration peer generation path).1 = s ∨
            ∃ a : ActiveGeneration, a.generation = active.generation ∧
              (s.beginGeneration peer generation path).1.generations =
                s.generations.insert peer a)) := by
  cases hfound : s.generations[peer]? with
  | none =>
    simp only [beginGeneration, hfound]
    exact .inl ⟨_, rfl, rfl, rfl, fun _ h => nomatch h⟩
  | some active =>
    simp only [beginGeneration, hfound]
    split
    · refine .inr ?_
      split
      · exact ⟨rfl, active, rfl, .inr ⟨⟨_, _, path.or active.socketPath⟩, rfl, rfl⟩⟩
      · exact ⟨rfl, active, rfl, .inl rfl⟩
    next hlt =>
      refine .inl ⟨_, rfl, rfl, rfl, fun _ h => ?_⟩
      cases h
      omega

end PeerReplicatorSupervisors

/-- The supervisors and the generations begun so far. -/
structure Begun where
  supervisors : PeerReplicatorSupervisors := {}
  begun : List (String × Nat) := []

namespace Begun

def notice (r : Begun) : PeerConnectionEvent → Begun
  | .connected peer generation path =>
    let s := r.supervisors.beginGeneration peer generation path
    ⟨s.1, if s.2.isSome then (peer, generation) :: r.begun else r.begun⟩
  | .disconnected peer generation =>
    { r with supervisors := r.supervisors.peerDisconnected peer generation }

def run (notices : List PeerConnectionEvent) : Begun := notices.foldl notice {}

/-- No recorded generation is older than one begun for its peer. -/
def Current (r : Begun) : Prop :=
  ∀ peer active, r.supervisors.generations[peer]? = some active →
    ∀ generation, (peer, generation) ∈ r.begun → generation ≤ active.generation

/-- A notice that finds no generation recorded is not older than one begun. -/
def Timely (r : Begun) : PeerConnectionEvent → Prop
  | .connected peer generation _ => r.supervisors.generations[peer]? = none →
      ∀ earlier, (peer, earlier) ∈ r.begun → earlier ≤ generation
  | .disconnected _ _ => True

variable {r : Begun}

/-- Recording a generation keeps the rest current. -/
theorem current_insert (h : r.Current) {s : PeerReplicatorSupervisors} {peer : String}
    {a : ActiveGeneration} {begun : List (String × Nat)}
    (hs : s.generations = r.supervisors.generations.insert peer a)
    (hbegun : begun = r.begun ∨ begun = (peer, a.generation) :: r.begun) :
    Current ⟨s, begun⟩ ↔ ∀ earlier, (peer, earlier) ∈ r.begun → earlier ≤ a.generation := by
  have hmem : ∀ p g, (p, g) ∈ r.begun → (p, g) ∈ begun := by
    rcases hbegun with rfl | rfl
    · exact fun _ _ h => h
    · exact fun _ _ h => List.mem_cons_of_mem _ h
  constructor
  · intro hcurrent earlier hearlier
    exact hcurrent peer a (by rw [hs]; simp) earlier (hmem _ _ hearlier)
  · intro hpeer p active hactive generation hgeneration
    have hold : (p, generation) ∈ r.begun ∨ (p = peer ∧ generation = a.generation) := by
      rcases hbegun with rfl | rfl
      · exact .inl hgeneration
      · simpa [or_comm] using hgeneration
    rw [hs] at hactive
    rcases BTreeMap.of_lookup_insert hactive with ⟨rfl, rfl⟩ | ⟨hne, hactive⟩
    · exact hold.elim (hpeer generation) fun h => h.2.le
    · rcases hold with hold | ⟨rfl, -⟩
      · exact h p active hactive generation hold
      · exact absurd rfl hne

theorem current_notice_iff (h : r.Current) (n : PeerConnectionEvent) :
    (r.notice n).Current ↔ r.Timely n := by
  cases n with
  | connected peer generation path =>
    rcases r.supervisors.beginGeneration_cases peer generation path with
      ⟨a, rfl, hs, hbegun, hnewer⟩ | ⟨hbegun, active, hfound, hs⟩
    · simp only [notice, hbegun, if_true]
      refine (current_insert h hs (.inr rfl)).trans
        ⟨fun hle _ => hle, fun htimely earlier hmem => ?_⟩
      cases hfound : r.supervisors.generations[peer]? with
      | none => exact htimely hfound earlier hmem
      | some active =>
        exact ((h peer active hfound earlier hmem).trans_lt (hnewer active hfound)).le
    · simp only [notice, hbegun, Bool.false_eq_true, if_false]
      refine iff_of_true ?_ (by simp [Timely, hfound])
      rcases hs with hs | ⟨a, ha, hs⟩
      · rwa [hs]
      · exact (current_insert h hs (.inl rfl)).mpr (ha ▸ h peer active hfound)
  | disconnected peer generation =>
    refine iff_of_true ?_ trivial
    simp only [notice, PeerReplicatorSupervisors.peerDisconnected]
    split
    · split_ifs
      · intro p active hactive
        exact h p active (BTreeMap.of_lookup_erase hactive).2
      · exact h
    · exact h

/-- The recorded generation of a peer never moves to an older one than one already begun
exactly when every notice of the run that finds none recorded is in time. -/
theorem runs_current_iff (notices : List PeerConnectionEvent) :
    (∀ seen, seen <+: notices → (run seen).Current) ↔
      ∀ seen n, seen ++ [n] <+: notices → (run seen).Timely n := by
  have hstep : ∀ seen n, run (seen ++ [n]) = (run seen).notice n := fun seen n => by simp [run]
  constructor
  · intro hcurrent seen n hseen
    have hbefore := hcurrent seen ((List.prefix_append seen [n]).trans hseen)
    exact (current_notice_iff hbefore n).mp (hstep seen n ▸ hcurrent _ hseen)
  · intro htimely seen
    induction seen using List.reverseRecOn with
    | nil => exact fun _ _ _ _ _ h => absurd h List.not_mem_nil
    | append_singleton seen n ih =>
      intro hseen
      have hbefore := ih ((List.prefix_append seen [n]).trans hseen)
      rw [hstep]
      exact (current_notice_iff hbefore n).mpr (htimely seen n hseen)

/-- After the teardown of generation 2, a late notice begins generation 1. -/
theorem late_notice_begins_older :
    let r := run [.connected "p" 2 none, .disconnected "p" 2, .connected "p" 1 none]
    r.begun = [("p", 1), ("p", 2)] ∧
      r.supervisors.generations["p"]?.map ActiveGeneration.generation = some 1 := by
  decide +kernel

end Begun

end Flotilla.Replica
