import Flotilla.Lib.BTreeMap

/-!
# Version vectors and dots

A dot is one write: its author and the author's own counter.  A version vector
records, for each author, the highest counter it has heard of, so it stands for
a set of dots: `Covers v d` says `d` is in it.  The two operations are then set
operations,

    Covers (bump v a n) d ↔ Covers v d ∨ (d.author = a ∧ d.counter ≤ n)
    Covers (join v w) d   ↔ Covers v d ∨ Covers w d,

and every later argument runs on `Covers` alone.

The second half is about writes stamped with the vector their author had seen.
A stamp dominates another when it is a different write and covers the other's
dot; `Undominated` is the set of writes no other one dominates.

* `exists_undominated` : in a finite nonempty set of stamps whose vectors are
  closed under what they cover, and do not cover their own dot, some stamp is
  undominated.
-/

namespace Flotilla.Lib

/-- One write: who made it, and how many writes its author had made. -/
structure Dot (R : Type) where
  authorRoot : R
  authorCounter : Nat
  deriving DecidableEq, Repr

/-- For each author, the highest counter heard of. -/
abbrev VersionVector (R : Type) [Ord R] := BTreeMap R Nat

namespace VersionVector

variable {R : Type} [Ord R] [Std.TransOrd R]

/-- The vector has heard of the dot's author at the dot's counter or later. -/
def covers (v : VersionVector R) (d : Dot R) : Bool :=
  match v[d.authorRoot]? with
  | some counter => d.authorCounter ≤ counter
  | none => false

/-- Raise one author's counter, never lowering it. -/
def bump (v : VersionVector R) (author : R) (counter : Nat) : VersionVector R :=
  v.alter author fun
    | some current => some (max current counter)
    | none => some counter

/-- Raise every author's counter to the other vector's. -/
def join (v w : VersionVector R) : VersionVector R :=
  w.foldl (fun acc author counter => bump acc author counter) v

/-- The vector's counter of an author, `0` when it has none. -/
def counter (v : VersionVector R) (author : R) : Nat := (v[author]?).getD 0

variable {d : Dot R} {v : VersionVector R}

theorem covers_iff : covers v d = true ↔ ∃ n, v[d.authorRoot]? = some n ∧ d.authorCounter ≤ n := by
  unfold covers
  cases hv : v[d.authorRoot]? with
  | none => simp
  | some n => simp

theorem not_covers_empty : covers (∅ : VersionVector R) d = false := by
  simp [covers]

/-- A covered dot's counter is at most the vector's. -/
theorem le_counter_of_covers (h : covers v d = true) :
    d.authorCounter ≤ counter v d.authorRoot := by
  obtain ⟨n, hn, hle⟩ := covers_iff.mp h
  simpa [counter, hn] using hle

/-- Coverage is downward closed in the counter. -/
theorem covers_of_le {a : R} {m n : Nat} (h : covers v ⟨a, n⟩ = true) (hle : m ≤ n) :
    covers v ⟨a, m⟩ = true := by
  obtain ⟨k, hk, hn⟩ := covers_iff.mp h
  exact covers_iff.mpr ⟨k, hk, le_trans hle hn⟩

/-- A positive counter is that of a covered dot. -/
theorem covers_counter {a : R} (h : 0 < counter v a) : covers v ⟨a, counter v a⟩ = true := by
  unfold counter at h ⊢
  cases hv : v[a]? with
  | none => simp [hv] at h
  | some n => exact covers_iff.mpr ⟨n, by simpa using hv, by simp⟩

variable [Std.LawfulEqOrd R]

/-- **Raising a counter adds the author's dots up to it.** -/
theorem covers_bump (v : VersionVector R) (a : R) (n : Nat) (d : Dot R) :
    covers (bump v a n) d = true ↔
      covers v d = true ∨ (d.authorRoot = a ∧ d.authorCounter ≤ n) := by
  obtain ⟨b, k⟩ := d
  simp only [covers, bump, Std.ExtTreeMap.getElem?_alter, Std.compare_eq_iff_eq]
  by_cases hab : a = b
  · subst hab
    cases hv : v[a]? with
    | none => simp
    | some m => simp
  · have hba : b ≠ a := fun h => hab h.symm
    simp [hab, hba]

/-- A loop that raises one counter per entry adds the dots of every entry. -/
theorem covers_foldl_bump {E : Type} (author : E → R) (counter : E → Nat) (d : Dot R)
    (l : List E) (v : VersionVector R) :
    covers (l.foldl (fun acc e => bump acc (author e) (counter e)) v) d = true ↔
      covers v d = true ∨ ∃ e ∈ l, d.authorRoot = author e ∧ d.authorCounter ≤ counter e :=
  foldl_or (P := fun v => covers v d = true) (fun v e => covers_bump v (author e) (counter e) d) l v

/-- **Joining two vectors unites the dots they cover.** -/
theorem covers_join (v w : VersionVector R) :
    covers (join v w) d = true ↔ covers v d = true ∨ covers w d = true := by
  unfold join
  rw [Std.ExtTreeMap.foldl_eq_foldl_toList, covers_foldl_bump Prod.fst Prod.snd,
    covers_iff (v := w)]
  constructor
  · rintro (h | ⟨⟨a, n⟩, he, ha, hle⟩)
    · exact .inl h
    · subst ha
      exact .inr ⟨n, Std.ExtTreeMap.mem_toList_iff_getElem?_eq_some.mp he, hle⟩
  · rintro (h | ⟨n, hn, hle⟩)
    · exact .inl h
    · exact .inr
        ⟨(d.authorRoot, n), Std.ExtTreeMap.mem_toList_iff_getElem?_eq_some.mpr hn, rfl, hle⟩

end VersionVector

/-! ### Stamped writes -/

section Stamps

variable {R A : Type} [Ord R] [Std.TransOrd R] (dot : A → Dot R) (seen : A → VersionVector R)

/-- `a` is a different write whose author had seen `b`. -/
def Dominates (a b : A) : Prop := dot a ≠ dot b ∧ VersionVector.covers (seen a) (dot b) = true

variable {dot seen}

/-- **Some write is undominated.**  When no author had seen its own write, and
whoever had seen a write had also seen what that write's author had, domination
is a strict order, so a finite nonempty list has a write nothing dominates. -/
theorem exists_undominated {l : List A} (hne : l ≠ [])
    (hself : ∀ a ∈ l, VersionVector.covers (seen a) (dot a) = false)
    (hclosed : ∀ a ∈ l, ∀ b ∈ l, VersionVector.covers (seen a) (dot b) = true →
      ∀ d, VersionVector.covers (seen b) d = true → VersionVector.covers (seen a) d = true) :
    ∃ a ∈ l, ∀ b ∈ l, ¬ Dominates dot seen b a := by
  let r : {a // a ∈ l} → {a // a ∈ l} → Prop := fun a b => Dominates dot seen a.1 b.1
  have htrans : IsTrans {a // a ∈ l} r := by
    refine ⟨fun a b c hab hbc => ?_⟩
    have hac : VersionVector.covers (seen a.1) (dot c.1) = true :=
      hclosed a.1 a.2 b.1 b.2 hab.2 _ hbc.2
    refine ⟨fun hdot => ?_, hac⟩
    rw [← hdot, hself a.1 a.2] at hac
    exact absurd hac (by decide)
  have hirrefl : Std.Irrefl r := ⟨fun a h => h.1 rfl⟩
  have hfin : Finite {a // a ∈ l} := l.finite_toSet
  have hwf : WellFounded r := Finite.wellFounded_of_trans_of_irrefl r
  obtain ⟨a, ha⟩ := List.exists_mem_of_ne_nil l hne
  obtain ⟨m, -, hm⟩ := hwf.has_min Set.univ ⟨⟨a, ha⟩, trivial⟩
  exact ⟨m.1, m.2, fun b hb => hm ⟨b, hb⟩ trivial⟩

end Stamps

end Flotilla.Lib
