import Mathlib

/-!
# The two-generation cache

The dictionary cache of the store keeps two maps.  A lookup promotes an entry
into the young one, and a young generation that is full becomes the old one in
place of the previous.  A key may stand in both at once, and a lookup reads the
young copy, so what has to hold over a run is about what a lookup would see:
`Fresh` says that it is the value last inserted, or nothing.
-/

namespace Flotilla

variable {K V : Type} [DecidableEq K] [Hashable K]

structure TwoGen (K V : Type) [DecidableEq K] [Hashable K] where
  young : Std.ExtHashMap K V
  old : Std.ExtHashMap K V
  capacity : Nat

namespace TwoGen

def new (capacity : Nat) : TwoGen K V := ⟨∅, ∅, max capacity 1⟩

def insert (c : TwoGen K V) (key : K) (value : V) : TwoGen K V :=
  let turned := if c.young.size ≥ c.capacity then { c with young := ∅, old := c.young } else c
  { turned with young := turned.young.insert key value }

def get (c : TwoGen K V) (key : K) : Option V × TwoGen K V :=
  match c.young[key]? with
  | some value => (some value, c)
  | none =>
    match c.old[key]? with
    | none => (none, c)
    | some value => (some value, { c with old := c.old.erase key }.insert key value)

def remove (c : TwoGen K V) (key : K) : TwoGen K V :=
  { c with young := c.young.erase key, old := c.old.erase key }

def len (c : TwoGen K V) : Nat := c.young.size + c.old.size

/-- What a run does to the cache. -/
inductive Op (K V : Type) where
  | insert (key : K) (value : V)
  | remove (key : K)
  | get (key : K)

def Op.run (c : TwoGen K V) : Op K V → TwoGen K V
  | .insert key value => c.insert key value
  | .remove key => c.remove key
  | .get key => (c.get key).2

/-- The value last inserted for each key with no removal since. -/
def Op.last (held : K → Option V) : Op K V → K → Option V
  | .insert key value => Function.update held key (some value)
  | .remove key => Function.update held key none
  | .get _ => held

/-- What a lookup of the key returns: the young copy before the old one. -/
def view (c : TwoGen K V) (key : K) : Option V := c.young[key]?.or c.old[key]?

/-- A cache made for `n` entries is within its bounds, and what it shows was inserted last. -/
structure Fresh (n : Nat) (c : TwoGen K V) (held : K → Option V) : Prop where
  capacity : c.capacity = max n 1
  young : c.young.size ≤ c.capacity
  old : c.old.size ≤ c.capacity
  shown : ∀ key value, c.view key = some value → held key = some value

variable {n : Nat} {c : TwoGen K V} {held : K → Option V}

theorem get_fst (key : K) : (c.get key).1 = c.view key := by
  unfold get view
  cases c.young[key]? with
  | some value => rfl
  | none => cases c.old[key]? <;> rfl

/-- An insert shows its value, and of another key nothing that was not shown. -/
theorem view_insert {key k : K} {value v : V} (h : (c.insert key value).view k = some v) :
    Function.update c.view key (some value) k = some v := by
  by_cases hk : k = key
  · subst hk
    simpa [view, insert] using h
  · rw [Function.update_of_ne hk, view]
    simp only [view, insert, Std.ExtHashMap.getElem?_insert, beq_iff_eq, Ne.symm hk, if_false] at h
    split at h
    · simp only [Std.ExtHashMap.getElem?_empty, Option.none_or] at h
      rw [h, Option.some_or]
    · exact h

namespace Fresh

theorem insert (h : Fresh n c held) (key : K) (value : V) :
    Fresh n (c.insert key value) (Function.update held key (some value)) := by
  have hshown : ∀ k v, (c.insert key value).view k = some v →
      Function.update held key (some value) k = some v := by
    intro k v hv
    have hview := view_insert hv
    rw [Function.update_apply] at hview ⊢
    split_ifs at hview ⊢
    · exact hview
    · exact h.shown k v hview
  have hcapacity := h.capacity
  unfold TwoGen.insert at hshown ⊢
  split_ifs at hshown ⊢ with hfull
  · refine ⟨hcapacity, Std.ExtHashMap.size_insert_le.trans ?_, h.young, hshown⟩
    simp only [Std.ExtHashMap.size_empty]
    omega
  · exact ⟨hcapacity, Std.ExtHashMap.size_insert_le.trans (not_le.mp hfull), h.old, hshown⟩

theorem remove (h : Fresh n c held) (key : K) :
    Fresh n (c.remove key) (Function.update held key none) := by
  refine ⟨h.capacity, Std.ExtHashMap.size_erase_le.trans h.young,
    Std.ExtHashMap.size_erase_le.trans h.old, fun k v hv => ?_⟩
  by_cases hk : k = key
  · subst hk
    simp [TwoGen.remove, view] at hv
  · rw [Function.update_of_ne hk]
    refine h.shown k v ?_
    simpa [TwoGen.remove, view, Std.ExtHashMap.getElem?_erase, Ne.symm hk] using hv

/-- A promotion inserts what the key already showed. -/
theorem get (h : Fresh n c held) (key : K) : Fresh n (c.get key).2 held := by
  have hshown := h.shown key
  unfold TwoGen.get
  cases hyoung : c.young[key]? with
  | some value => exact h
  | none =>
    cases hold : c.old[key]? with
    | none => exact h
    | some value =>
      have herased : Fresh n { c with old := c.old.erase key } held := by
        refine ⟨h.capacity, h.young, Std.ExtHashMap.size_erase_le.trans h.old, fun k v hv => ?_⟩
        refine h.shown k v ?_
        simp only [view, Std.ExtHashMap.getElem?_erase] at hv ⊢
        split_ifs at hv
        · rw [Option.or_none] at hv
          rw [hv, Option.some_or]
        · exact hv
      have hsame := herased.insert key value
      rwa [← hshown value (by rw [view, hyoung, hold, Option.none_or]), Function.update_eq_self]
        at hsame

theorem run (h : Fresh n c held) (op : Op K V) : Fresh n (op.run c) (op.last held) := by
  cases op with
  | insert key value => exact h.insert key value
  | remove key => exact h.remove key
  | get key => exact h.get key

theorem runs (h : Fresh n c held) (ops : List (Op K V)) :
    Fresh n (ops.foldl Op.run c) (ops.foldl Op.last held) := by
  induction ops generalizing c held with
  | nil => exact h
  | cons op ops ih => exact ih (h.run op)

end Fresh

/-- **A lookup is fresh and the cache is bounded**, after any run: it returns
nothing, or the value last inserted for the key with no removal since. -/
theorem get_fresh (capacity : Nat) (ops : List (Op K V)) (key : K) :
    (((ops.foldl Op.run (new capacity)).get key).1 = none ∨
      ((ops.foldl Op.run (new capacity)).get key).1 = ops.foldl Op.last (fun _ => none) key) ∧
    (ops.foldl Op.run (new capacity)).len ≤ 2 * max capacity 1 := by
  have hnew : Fresh capacity (new capacity : TwoGen K V) fun _ => none :=
    ⟨rfl, Nat.zero_le _, Nat.zero_le _, fun key value h => by simp [new, view] at h⟩
  obtain ⟨hcapacity, hyoung, hold, hshown⟩ := hnew.runs ops
  rw [get_fst]
  constructor
  · cases hview : (ops.foldl Op.run (new capacity)).view key with
    | none => exact .inl rfl
    | some value => exact .inr (hshown key value hview).symm
  · rw [len]
    omega

end TwoGen

end Flotilla
