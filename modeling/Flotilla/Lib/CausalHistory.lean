import Flotilla.Lib.VersionVector

/-!
# Histories of stamped writes

Parties write under dots and stamp each write with the vector they had heard of.
A history keeps the vectors that ever stood at some party, the stamps of the
writes, and how many writes each author has made.  `Consistent` is what every
history built by honest writing satisfies:

* a vector that covers a write covers what the write's author had seen,
* no write had seen itself,
* nobody has heard of more writes of an author than it made.

`Consistent.author` is the one step: an author joins some of the vectors, makes
the next write under the join, and its own vector becomes the join with the new
dot.  `Consistent.exists_undominated` is what it is for: among finitely many
writes of a consistent history some write is seen by none of the others.
-/

namespace Flotilla.Lib

variable {R : Type} [Ord R] [Std.TransOrd R] [Std.LawfulEqOrd R]

/-- A write: its dot, and what its author had heard of. -/
structure Stamp (R : Type) [Ord R] where
  dot : Dot R
  seen : VersionVector R

structure CausalHistory (R : Type) [Ord R] where
  vectors : Set (VersionVector R)
  stamps : Set (Stamp R)
  /-- How many writes an author has made. -/
  counter : R → Nat

namespace VersionVector

/-- Every dot of the one is a dot of the other. -/
def Le (v w : VersionVector R) : Prop := ∀ d, covers v d = true → covers w d = true

omit [Std.LawfulEqOrd R] in
theorem Le.trans {u v w : VersionVector R} (h : Le u v) (h' : Le v w) : Le u w :=
  fun d hd => h' d (h d hd)

/-- Raising an author to its next counter adds at most that one positive dot. -/
theorem covers_insert_succ {v : VersionVector R} {a : R} {d : Dot R} (hpos : 0 < d.authorCounter)
    (h : covers (v.insert a (counter v a + 1)) d = true) :
    covers v d = true ∨ d = ⟨a, counter v a + 1⟩ := by
  obtain ⟨b, k⟩ := d
  obtain ⟨n, hn, hle⟩ := covers_iff.mp h
  by_cases hab : a = b
  · subst hab
    have hcount : n = counter v a + 1 := by simpa using hn.symm
    by_cases hk : k = counter v a + 1
    · exact .inr (by rw [hk])
    · have hkn : k ≤ n := hle
      have hlt : k ≤ counter v a := by omega
      have hpos' : 0 < counter v a := by
        have hk0 : 0 < k := hpos
        omega
      exact .inl (covers_of_le (covers_counter hpos') hlt)
  · have hn' : v[b]? = some n := by simpa [Std.ExtTreeMap.getElem?_insert, hab] using hn
    exact .inl (covers_iff.mpr ⟨n, hn', hle⟩)

variable (v : VersionVector R) (a : R)

theorem le_insert_succ : Le v (v.insert a (counter v a + 1)) := by
  intro d hd
  obtain ⟨n, hn, hle⟩ := covers_iff.mp hd
  rw [covers_iff]
  by_cases hab : a = d.authorRoot
  · refine ⟨counter v a + 1, by simp [hab], ?_⟩
    have hcount := le_counter_of_covers hd
    rw [← hab] at hcount
    omega
  · exact ⟨n, by simpa [Std.ExtTreeMap.getElem?_insert, hab] using hn, hle⟩

theorem covers_insert_self (n : Nat) : covers (v.insert a n) ⟨a, n⟩ = true :=
  covers_iff.mpr ⟨n, by simp, le_refl n⟩

theorem counter_insert (b : R) (n : Nat) [DecidableEq R] :
    counter (v.insert a n) b = if a = b then n else counter v b := by
  simp only [counter, Std.ExtTreeMap.getElem?_insert, Std.compare_eq_iff_eq]
  by_cases hab : a = b
  · simp [hab]
  · simp [hab]

end VersionVector

open VersionVector

/-- What honest writing keeps. -/
structure CausalHistory.Consistent (h : CausalHistory R) : Prop where
  positive : ∀ e ∈ h.stamps, 0 < e.dot.authorCounter
  unseen : ∀ e ∈ h.stamps, covers e.seen e.dot = false
  /-- A vector that covers a write covers what its author had seen. -/
  closed : ∀ v ∈ h.vectors, ∀ e ∈ h.stamps, covers v e.dot = true → Le e.seen v
  seenClosed : ∀ e ∈ h.stamps, ∀ e' ∈ h.stamps, covers e.seen e'.dot = true → Le e'.seen e.seen
  /-- Nobody has heard of more writes of an author than it made. -/
  bounded : ∀ v ∈ h.vectors, ∀ a, VersionVector.counter v a ≤ h.counter a
  dotBounded : ∀ e ∈ h.stamps, e.dot.authorCounter ≤ h.counter e.dot.authorRoot
  seenBounded : ∀ e ∈ h.stamps, ∀ a, VersionVector.counter e.seen a ≤ h.counter a

namespace CausalHistory

/-- Nothing written yet. -/
def empty : CausalHistory R where
  vectors := ∅
  stamps := ∅
  counter := fun _ => 0

omit [Std.LawfulEqOrd R] in
theorem consistent_empty : (empty : CausalHistory R).Consistent := by
  refine ⟨?_, ?_, ?_, ?_, ?_, ?_, ?_⟩
  all_goals
    intro x hx
    exact absurd hx (Set.notMem_empty x)

/-- A join of vectors of the history. -/
def IsJoin (h : CausalHistory R) (context : VersionVector R) : Prop :=
  ∀ d, covers context d = true → ∃ v ∈ h.vectors, covers v d = true ∧ Le v context

/-- The author's next write under `context`. -/
def nextStamp (a : R) (context : VersionVector R) : Stamp R where
  dot := ⟨a, VersionVector.counter context a + 1⟩
  seen := context

/-- The author's vector after that write. -/
def nextVector (a : R) (context : VersionVector R) : VersionVector R :=
  context.insert a (VersionVector.counter context a + 1)

variable {h h' : CausalHistory R} {context : VersionVector R} {a : R}

omit [Std.LawfulEqOrd R] in
/-- What a join covers, it covers with everything its author had seen. -/
theorem Consistent.closed_join (hc : h.Consistent) (hjoin : h.IsJoin context) {e : Stamp R}
    (he : e ∈ h.stamps) (hcovers : covers context e.dot = true) : Le e.seen context := by
  obtain ⟨v, hv, hcov, hle⟩ := hjoin e.dot hcovers
  exact (hc.closed v hv e he hcov).trans hle

omit [Std.LawfulEqOrd R] in
theorem Consistent.bounded_join (hc : h.Consistent) (hjoin : h.IsJoin context) (b : R) :
    VersionVector.counter context b ≤ h.counter b := by
  by_cases hpos : 0 < VersionVector.counter context b
  · obtain ⟨v, hv, hcov, -⟩ := hjoin ⟨b, _⟩ (covers_counter hpos)
    exact (le_counter_of_covers hcov).trans (hc.bounded v hv b)
  · omega

variable [DecidableEq R]

/-- **Honest writing keeps a history consistent.**  The new history may hold the
old vectors and stamps and the author's new ones, and nothing else. -/
theorem Consistent.author (hc : h.Consistent) (hjoin : h.IsJoin context)
    (hown : VersionVector.counter context a = h.counter a)
    (hvectors : ∀ v ∈ h'.vectors, v ∈ h.vectors ∨ v = nextVector a context)
    (hstamps : ∀ e ∈ h'.stamps, e ∈ h.stamps ∨ e = nextStamp a context)
    (hcounter : h'.counter = Function.update h.counter a (h.counter a + 1)) : h'.Consistent := by
  have hfresh : ∀ v, (∀ b, VersionVector.counter v b ≤ h.counter b) →
      covers v (nextStamp a context).dot = false := by
    intro v hv
    rw [← Bool.not_eq_true]
    intro hcov
    have hle : VersionVector.counter context a + 1 ≤ VersionVector.counter v a :=
      le_counter_of_covers hcov
    have hva := hv a
    omega
  have hgrow : ∀ b, h.counter b ≤ h'.counter b := by
    intro b
    rw [hcounter]
    by_cases hb : b = a
    · subst hb
      simp
    · simp [Function.update_of_ne hb]
  have hnext : h'.counter a = VersionVector.counter context a + 1 := by
    rw [hcounter, Function.update_self, hown]
  -- what holds of the old stamps and of the new one holds of all
  have hstamp {P : Stamp R → Prop} (hold : ∀ e ∈ h.stamps, P e) (hnew : P (nextStamp a context)) :
      ∀ e ∈ h'.stamps, P e := fun e he => (hstamps e he).elim (hold e) fun heq => heq ▸ hnew
  have hjoined := fun b => hc.bounded_join hjoin b
  refine ⟨?_, ?_, ?_, ?_, ?_, ?_, ?_⟩
  · exact hstamp hc.positive (Nat.succ_pos _)
  · exact hstamp hc.unseen (hfresh context hjoined)
  · intro v hv
    rcases hvectors v hv with hold | rfl
    · refine hstamp (hc.closed v hold) fun hcov => ?_
      rw [hfresh v (hc.bounded v hold)] at hcov
      cases hcov
    · refine hstamp (fun e hestamp hcov => ?_) fun _ => le_insert_succ context a
      rcases covers_insert_succ (hc.positive e hestamp) hcov with hctx | hdot
      · exact (hc.closed_join hjoin hestamp hctx).trans (le_insert_succ context a)
      · have hbound := hc.dotBounded e hestamp
        rw [hdot] at hbound
        have hlt : VersionVector.counter context a + 1 ≤ h.counter a := hbound
        omega
  · refine hstamp (fun e hold => hstamp (hc.seenClosed e hold) fun hcov => ?_)
      (hstamp (fun e' hold' => hc.closed_join hjoin hold') fun _ d hd => hd)
    rw [hfresh e.seen (hc.seenBounded e hold)] at hcov
    cases hcov
  · intro v hv b
    rcases hvectors v hv with hold | rfl
    · exact (hc.bounded v hold b).trans (hgrow b)
    · rw [nextVector, counter_insert]
      by_cases hb : a = b
      · subst hb
        rw [if_pos rfl, hnext]
      · rw [if_neg hb]
        exact (hjoined b).trans (hgrow b)
  · exact hstamp (fun e hold => (hc.dotBounded e hold).trans (hgrow _)) hnext.ge
  · exact hstamp (fun e hold b => (hc.seenBounded e hold b).trans (hgrow b))
      fun b => (hjoined b).trans (hgrow b)

omit [Std.LawfulEqOrd R] [DecidableEq R] in
/-- Among finitely many writes of a consistent history one is seen by no other. -/
theorem Consistent.exists_undominated {A : Type} (hc : h.Consistent) (stamp : A → Stamp R)
    {l : List A} (hl : ∀ x ∈ l, stamp x ∈ h.stamps) (hne : l ≠ []) :
    ∃ x ∈ l, ∀ y ∈ l,
      ¬ Dominates (fun z => (stamp z).dot) (fun z => (stamp z).seen) y x :=
  Lib.exists_undominated hne (fun x hx => hc.unseen _ (hl x hx))
    fun x hx y hy hcov => hc.seenClosed _ (hl x hx) _ (hl y hy) hcov

end CausalHistory

end Flotilla.Lib
