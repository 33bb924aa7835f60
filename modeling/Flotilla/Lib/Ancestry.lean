import Mathlib

/-!
# Ancestry

Keys that each have at most one parent.  The parents of a key are followed step
by step (`follow`), and the keys form a forest when no key is above itself
(`Acyclic`).

* `acyclic_iff_follow_eq_none` : over finitely many keys, no key is above itself
  exactly when following the parents of every key ends within as many steps as
  there are keys.
* `exists_short_cycle` : a key above itself is so within as many steps as there
  are keys.
* `Acyclic.mono`, `Acyclic.of_leaf` : a forest stays one when parents are
  forgotten, and when a key is added that is nobody's parent.
-/

namespace Flotilla.Lib

variable {K : Type}

/-- The key reached from `k` by going to the parent `n` times. -/
def follow (parent : K → Option K) : Nat → K → Option K
  | 0, k => some k
  | n + 1, k => (follow parent n k).bind parent

/-- No key is above itself. -/
def Acyclic (parent : K → Option K) : Prop :=
  ∀ k, ¬ Relation.TransGen (fun a b => parent a = some b) k k

variable {parent : K → Option K}

theorem follow_add (i j : Nat) (k : K) :
    follow parent (i + j) k = (follow parent i k).bind (follow parent j) := by
  induction j with
  | zero => simp [follow]
  | succ j ih =>
    rw [← Nat.add_assoc, follow, ih, Option.bind_assoc]
    rfl

theorem follow_of_le {i j : Nat} {k : K} (hij : i ≤ j) (h : follow parent i k = none) :
    follow parent j k = none := by
  obtain ⟨d, rfl⟩ := Nat.exists_eq_add_of_le hij
  rw [follow_add, h]
  rfl

theorem transGen_iff_follow {a b : K} :
    Relation.TransGen (fun a b => parent a = some b) a b ↔
      ∃ i, follow parent (i + 1) a = some b := by
  constructor
  · intro h
    induction h with
    | single h => exact ⟨0, by simpa [follow] using h⟩
    | tail _ h ih =>
      obtain ⟨i, hi⟩ := ih
      exact ⟨i + 1, by rw [follow, hi]; exact h⟩
  · rintro ⟨i, hi⟩
    induction i generalizing b with
    | zero => exact .single (by simpa [follow] using hi)
    | succ i ih =>
      obtain ⟨c, hc, hcb⟩ := Option.bind_eq_some_iff.mp hi
      exact (ih hc).tail hcb

theorem acyclic_iff_follow : Acyclic parent ↔ ∀ k i, follow parent (i + 1) k ≠ some k := by
  constructor
  · intro h k i hi
    exact h k (transGen_iff_follow.mpr ⟨i, hi⟩)
  · intro h k hk
    obtain ⟨i, hi⟩ := transGen_iff_follow.mp hk
    exact h k i hi

/-! ### Finitely many keys -/

section Finite

variable [DecidableEq K] {keys : List K}

/-- Following `n` parents among at most `n` keys comes to one key twice. -/
theorem exists_repeat (hclosed : ∀ a b, parent a = some b → b ∈ keys) {k : K} (hk : k ∈ keys)
    (h : follow parent keys.length k ≠ none) :
    ∃ i j, i < j ∧ j ≤ keys.length ∧ follow parent i k = follow parent j k := by
  have hsome : ∀ i ≤ keys.length, ∃ x ∈ keys, follow parent i k = some x := by
    intro i hi
    obtain ⟨x, hx⟩ := Option.ne_none_iff_exists'.mp fun hnone => h (follow_of_le hi hnone)
    cases i with
    | zero => exact ⟨k, hk, rfl⟩
    | succ i =>
      obtain ⟨y, -, hyx⟩ := Option.bind_eq_some_iff.mp hx
      exact ⟨x, hclosed y x hyx, by rw [follow]; exact hx⟩
  -- There is one more step than there are keys.
  have hcard : keys.toFinset.card < (Finset.range (keys.length + 1)).card := by
    rw [Finset.card_range]
    exact Nat.lt_succ_of_le (List.toFinset_card_le keys)
  have hmaps : ∀ i ∈ Finset.range (keys.length + 1),
      (follow parent i k).getD k ∈ keys.toFinset := by
    intro i hi
    obtain ⟨x, hx, hfollow⟩ := hsome i (Nat.lt_succ_iff.mp (Finset.mem_range.mp hi))
    simpa [hfollow] using hx
  obtain ⟨i, hi, j, hj, hne, heq⟩ := Finset.exists_ne_map_eq_of_card_lt_of_maps_to hcard hmaps
  have hi' := Nat.lt_succ_iff.mp (Finset.mem_range.mp hi)
  have hj' := Nat.lt_succ_iff.mp (Finset.mem_range.mp hj)
  have hfollow : follow parent i k = follow parent j k := by
    obtain ⟨x, -, hx⟩ := hsome i hi'
    obtain ⟨y, -, hy⟩ := hsome j hj'
    simpa [hx, hy] using heq
  rcases Nat.lt_or_gt_of_ne hne with hij | hji
  · exact ⟨i, j, hij, hj', hfollow⟩
  · exact ⟨j, i, hji, hi', hfollow.symm⟩

/-- **Following parents finds every cycle.** -/
theorem acyclic_iff_follow_eq_none (hclosed : ∀ a b, parent a = some b → a ∈ keys ∧ b ∈ keys) :
    Acyclic parent ↔ ∀ k ∈ keys, follow parent (keys.length + 1) k = none := by
  rw [acyclic_iff_follow]
  constructor
  · intro h k hk
    by_contra hne
    have hne' : follow parent keys.length k ≠ none := fun hnone =>
      hne (follow_of_le (Nat.le_succ _) hnone)
    obtain ⟨i, j, hij, hj, heq⟩ := exists_repeat (fun a b hab => (hclosed a b hab).2) hk hne'
    obtain ⟨x, hx⟩ := Option.ne_none_iff_exists'.mp fun hnone =>
      hne' (follow_of_le (le_trans hij.le hj) hnone)
    -- The key met twice is above itself.
    obtain ⟨d, rfl⟩ := Nat.exists_eq_add_of_lt hij
    rw [Nat.add_assoc, follow_add, hx] at heq
    exact h x d heq.symm
  · intro h k i hi
    have hk : k ∈ keys := by
      obtain ⟨p, hp⟩ : ∃ p, parent k = some p := by
        by_contra hnone
        have hone : follow parent 1 k = none := by
          simpa [follow] using Option.eq_none_iff_forall_ne_some.mpr fun p hp => hnone ⟨p, hp⟩
        rw [follow_of_le (Nat.le_add_left 1 i) hone] at hi
        cases hi
      exact (hclosed k p hp).1
    -- Going round the cycle often enough outlasts any bound.
    have hround : ∀ m, follow parent (m * (i + 1)) k = some k := by
      intro m
      induction m with
      | zero => simp [follow]
      | succ m ih => rw [Nat.succ_mul, follow_add, ih]; exact hi
    have hlong := hround (keys.length + 1)
    rw [follow_of_le (Nat.le_mul_of_pos_right _ (Nat.succ_pos i)) (h k hk)] at hlong
    cases hlong

theorem exists_short_cycle (hclosed : ∀ a b, parent a = some b → a ∈ keys ∧ b ∈ keys) {k : K}
    {i : Nat} (h : follow parent (i + 1) k = some k) :
    ∃ j ≤ keys.length, follow parent (j + 1) k = some k := by
  induction i using Nat.strong_induction_on with
  | _ i ih =>
    by_cases hi : i ≤ keys.length
    · exact ⟨i, hi, h⟩
    · have hk : k ∈ keys := by
        obtain ⟨x, -, hx⟩ := Option.bind_eq_some_iff.mp h
        exact (hclosed x k hx).2
      have hne : follow parent keys.length k ≠ none := by
        intro hnone
        rw [follow_of_le (by omega) hnone] at h
        cases h
      obtain ⟨a, b, hab, hb, heq⟩ := exists_repeat (fun a b hab => (hclosed a b hab).2) hk hne
      -- Leaving out what lies between the two visits keeps a cycle.
      refine ih (a + (i - b)) (by omega) ?_
      have hsplit : i + 1 = b + (i - b + 1) := by omega
      rw [hsplit, follow_add, ← heq, ← follow_add] at h
      exact h

end Finite

/-! ### Keeping a forest -/

theorem Acyclic.mono {parent' : K → Option K} (h : Acyclic parent)
    (hsub : ∀ a b, parent' a = some b → parent a = some b) : Acyclic parent' := by
  intro k hk
  exact h k (Relation.TransGen.mono hsub k k hk)

/-- A new key that is nobody's parent makes no cycle. -/
theorem Acyclic.of_leaf {parent' : K → Option K} (h : Acyclic parent) (leaf : K)
    (hleaf : ∀ a, parent' a ≠ some leaf)
    (hsub : ∀ a b, a ≠ leaf → parent' a = some b → parent a = some b) : Acyclic parent' := by
  have hpath : ∀ {a b}, a ≠ leaf → Relation.TransGen (fun a b => parent' a = some b) a b →
      Relation.TransGen (fun a b => parent a = some b) a b ∧ b ≠ leaf := by
    intro a b ha hab
    induction hab with
    | single h => exact ⟨.single (hsub _ _ ha h), fun hb => hleaf _ (hb ▸ h)⟩
    | tail _ h ih => exact ⟨ih.1.tail (hsub _ _ ih.2 h), fun hb => hleaf _ (hb ▸ h)⟩
  intro k hk
  have hne : k ≠ leaf := by
    rintro rfl
    obtain ⟨c, -, hc⟩ := Relation.TransGen.tail'_iff.mp hk
    exact hleaf c hc
  exact h k (hpath hne hk).1

end Flotilla.Lib
