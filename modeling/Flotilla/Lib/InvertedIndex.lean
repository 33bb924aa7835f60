import Flotilla.Lib.BTreeMap

/-!
# Inverted indexes

An index from keys to the names filed under them, kept beside the keys each name
was last filed with, so that filing a name anew takes back exactly what its
earlier filing left (`Reflects.update`).  The index is then a function of the
current filings (`Reflects.unique`).

`stretch` walks the entries from a key on while a condition lasts.  It finds every
key that meets the condition as long as these keys follow one another without a
break (`mem_stretch`).
-/

namespace Flotilla.Lib

open Std

structure InvertedIndex (K N : Type) [Ord K] [Ord N] where
  names : BTreeSet N := ∅
  entries : BTreeMap K (BTreeSet N) := ∅
  keys : BTreeMap N (List K) := ∅

namespace InvertedIndex

section Definitions

variable {K N : Type} [Ord K] [Ord N]

variable [TransOrd K] [TransOrd N]

/-- Take a name out of an entry; an entry without names is dropped. -/
def removeFrom (name : N) (entries : BTreeMap K (BTreeSet N)) (key : K) : BTreeMap K (BTreeSet N) :=
  match entries[key]? with
  | none => entries
  | some names =>
    if (names.erase name).isEmpty then entries.erase key
    else entries.insert key (names.erase name)

def addTo (name : N) (entries : BTreeMap K (BTreeSet N)) (key : K) : BTreeMap K (BTreeSet N) :=
  entries.insert key ((entries[key]?.getD ∅).insert name)

/-- Forget a name: everything its last filing left. -/
def remove (i : InvertedIndex K N) (name : N) : InvertedIndex K N where
  names := i.names.erase name
  entries := ((i.keys[name]?).getD []).foldl (removeFrom name) i.entries
  keys := i.keys.erase name

def add (i : InvertedIndex K N) (name : N) (keys : List K) : InvertedIndex K N where
  names := i.names.insert name
  entries := keys.foldl (addTo name) i.entries
  keys := i.keys.insert name keys

/-- File a name under its keys, or no longer. -/
def update (i : InvertedIndex K N) (name : N) : Option (List K) → InvertedIndex K N
  | none => i.remove name
  | some keys => (i.remove name).add name keys

/-- The names filed under a key. -/
def lookup (i : InvertedIndex K N) (key : K) : BTreeSet N := i.entries[key]?.getD ∅

/-- The entries from the key `start` on, while `p` lasts. -/
def stretch (i : InvertedIndex K N) (start : K) (p : K → Bool) : List (K × BTreeSet N) :=
  (i.entries.toList.dropWhile fun e => (compare e.1 start).isLT).takeWhile fun e => p e.1

end Definitions

variable {K N : Type} [Ord K] [Ord N] [TransOrd K] [TransOrd N]

/-! ### Scanning -/

section Stretch

/-- Where nothing with `p` follows something without it, dropping while `p` lasts leaves none. -/
theorem not_of_mem_dropWhile {A : Type} {p : A → Bool} {l : List A}
    (h : l.Pairwise fun a b => p b = true → p a = true) : ∀ e ∈ l.dropWhile p, p e = false := by
  induction l with
  | nil => simp
  | cons a l ih =>
    obtain ⟨hhead, h⟩ := List.pairwise_cons.mp h
    rw [List.dropWhile_cons]
    split
    · exact ih h
    next ha =>
      intro e he
      rcases List.mem_cons.mp he with rfl | he
      · exact Bool.eq_false_of_not_eq_true ha
      · exact Bool.eq_false_of_not_eq_true fun hp => ha (hhead e he hp)

omit [TransOrd N] in
/-- **A walk finds every entry with `p`**, when no key with `p` comes before the start and none
follows a key without `p`. -/
theorem mem_stretch [LawfulEqOrd K] {i : InvertedIndex K N} {start : K} {p : K → Bool}
    (hstart : ∀ k, p k = true → (compare k start).isLT = false)
    (hclosed : ∀ k k', (compare k start).isLT = false → compare k k' = .lt → p k' = true →
      p k = true) {e : K × BTreeSet N} :
    e ∈ i.stretch start p ↔ i.entries[e.1]? = some e.2 ∧ p e.1 = true := by
  rw [← ExtTreeMap.mem_toList_iff_getElem?_eq_some]
  have hsorted : i.entries.toList.Pairwise fun a b => compare a.1 b.1 = .lt :=
    ExtTreeMap.ordered_keys_toList
  have hfrom := not_of_mem_dropWhile (p := fun e => (compare e.1 start).isLT)
    (hsorted.imp fun {a b} hab hb => by
      rw [Ordering.isLT_iff_eq_lt] at hb ⊢
      exact TransCmp.lt_trans hab hb)
  constructor
  · intro hmem
    refine ⟨?_, List.mem_takeWhile_imp (p := fun e : K × BTreeSet N => p e.1) hmem⟩
    exact (List.dropWhile_sublist _).subset ((List.takeWhile_sublist _).subset hmem)
  · rintro ⟨hmem, hp⟩
    -- an entry is taken or dropped, and the one with `p` is on the right side of both
    rw [← List.takeWhile_append_dropWhile (l := i.entries.toList),
      List.mem_append] at hmem
    have hkept := hmem.resolve_left fun hbefore => by
      have hlt := List.mem_takeWhile_imp (p := fun e : K × BTreeSet N => (compare e.1 start).isLT)
        hbefore
      rw [hstart e.1 hp] at hlt
      cases hlt
    rw [← List.takeWhile_append_dropWhile (l := i.entries.toList.dropWhile _),
      List.mem_append] at hkept
    refine hkept.resolve_right fun hrest => ?_
    rw [not_of_mem_dropWhile ?_ e hrest] at hp
    · cases hp
    · refine (hsorted.sublist (List.dropWhile_sublist _)).imp_of_mem ?_
      intro a b ha _ hab
      exact hclosed a.1 b.1 (hfrom a ha) hab

end Stretch

/-! ### One filing -/

/-- The index is what the filings `docs` leave. -/
structure Reflects (docs : BTreeMap N (List K)) (i : InvertedIndex K N) : Prop where
  names : ∀ name, name ∈ i.names ↔ name ∈ docs
  keys : i.keys = docs
  entries : ∀ key name, name ∈ i.lookup key ↔ ∃ keys, docs[name]? = some keys ∧ key ∈ keys
  nonempty : ∀ (key : K) (names : BTreeSet N), i.entries[key]? = some names → names ≠ ∅

/-- No entry is empty. -/
def Tight (entries : BTreeMap K (BTreeSet N)) : Prop :=
  ∀ (key : K) (names : BTreeSet N), entries[key]? = some names → names ≠ ∅

theorem mem_lookup_iff {i : InvertedIndex K N} {key : K} {name : N} :
    name ∈ i.lookup key ↔ ∃ names, i.entries[key]? = some names ∧ name ∈ names := by
  unfold lookup
  cases i.entries[key]? <;> simp

theorem Tight.removeFrom {entries : BTreeMap K (BTreeSet N)} (h : Tight entries) (name : N)
    (key : K) : Tight (removeFrom name entries key) := by
  unfold InvertedIndex.removeFrom
  cases hentry : entries[key]? with
  | none => exact h
  | some names =>
    simp only
    split
    · intro key' names' hnames'
      rw [ExtTreeMap.getElem?_erase] at hnames'
      split at hnames'
      · cases hnames'
      · exact h key' names' hnames'
    next hempty =>
      intro key' names' hnames'
      rw [ExtTreeMap.getElem?_insert] at hnames'
      split at hnames'
      · cases hnames'
        rwa [ExtTreeSet.isEmpty_iff] at hempty
      · exact h key' names' hnames'

theorem Tight.addTo {entries : BTreeMap K (BTreeSet N)} (h : Tight entries) (name : N) (key : K) :
    Tight (addTo name entries key) := by
  intro key' names' hnames'
  unfold InvertedIndex.addTo at hnames'
  rw [ExtTreeMap.getElem?_insert] at hnames'
  split at hnames'
  · cases hnames'
    intro hempty
    have hmem : name ∈ (entries[key]?.getD ∅).insert name := ExtTreeSet.mem_insert_self
    rw [hempty] at hmem
    exact absurd hmem ExtTreeSet.not_mem_empty
  · exact h key' names' hnames'

theorem reflects_empty : Reflects (∅ : BTreeMap N (List K)) ({} : InvertedIndex K N) where
  names := by simp
  keys := rfl
  entries := by simp [lookup]
  nonempty := by simp

variable [LawfulEqOrd K] [LawfulEqOrd N]

theorem mem_removeFrom {entries : BTreeMap K (BTreeSet N)} {name name' : N} {key key' : K} :
    name' ∈ (removeFrom name entries key)[key']?.getD ∅ ↔
      name' ∈ entries[key']?.getD ∅ ∧ ¬ (name' = name ∧ key' = key) := by
  unfold removeFrom
  cases hentry : entries[key]? with
  | none =>
    constructor
    · intro h
      refine ⟨h, ?_⟩
      rintro ⟨-, rfl⟩
      rw [hentry] at h
      simp at h
    · exact fun h => h.1
  | some names =>
    simp only
    by_cases hkey : key = key'
    · subst hkey
      rw [hentry, Option.getD_some]
      have herase : name' ∈ names.erase name ↔ name' ∈ names ∧ ¬ name' = name := by
        rw [ExtTreeSet.mem_erase, and_comm, Ne, Std.compare_eq_iff_eq, eq_comm]
      split
      next hempty =>
        rw [ExtTreeSet.isEmpty_iff] at hempty
        rw [hempty] at herase
        simpa using herase
      next =>
        rw [ExtTreeMap.getElem?_insert_self, Option.getD_some, herase]
        simp
    · have hother : compare key key' ≠ .eq := fun h => hkey (Std.compare_eq_iff_eq.mp h)
      have hne : ¬ (name' = name ∧ key' = key) := fun h => hkey h.2.symm
      split
      · rw [ExtTreeMap.getElem?_erase, if_neg hother]
        simp [hne]
      · rw [ExtTreeMap.getElem?_insert, if_neg hother]
        simp [hne]

theorem mem_addTo {entries : BTreeMap K (BTreeSet N)} {name name' : N} {key key' : K} :
    name' ∈ (addTo name entries key)[key']?.getD ∅ ↔
      name' ∈ entries[key']?.getD ∅ ∨ (name' = name ∧ key' = key) := by
  unfold addTo
  by_cases hkey : key = key'
  · subst hkey
    rw [ExtTreeMap.getElem?_insert_self, Option.getD_some, ExtTreeSet.mem_insert,
      Std.compare_eq_iff_eq]
    simp only [and_true]
    rw [or_comm, eq_comm]
  · have hother : compare key key' ≠ .eq := fun h => hkey (Std.compare_eq_iff_eq.mp h)
    rw [ExtTreeMap.getElem?_insert, if_neg hother]
    have hne : ¬ (name' = name ∧ key' = key) := fun h => hkey h.2.symm
    simp [hne]

variable (keys : List K) (entries : BTreeMap K (BTreeSet N))

theorem mem_foldl_removeFrom {name name' : N} {key : K} :
    name' ∈ (keys.foldl (removeFrom name) entries)[key]?.getD ∅ ↔
      name' ∈ entries[key]?.getD ∅ ∧ ¬ (name' = name ∧ key ∈ keys) := by
  induction keys generalizing entries with
  | nil => simp
  | cons k keys ih =>
    rw [List.foldl_cons, ih, mem_removeFrom, List.mem_cons]
    tauto

theorem mem_foldl_addTo {name name' : N} {key : K} :
    name' ∈ (keys.foldl (addTo name) entries)[key]?.getD ∅ ↔
      name' ∈ entries[key]?.getD ∅ ∨ (name' = name ∧ key ∈ keys) := by
  induction keys generalizing entries with
  | nil => simp
  | cons k keys ih =>
    rw [List.foldl_cons, ih, mem_addTo, List.mem_cons]
    tauto

/-! ### Filing anew -/

variable {docs : BTreeMap N (List K)} {i : InvertedIndex K N}

theorem Reflects.remove (h : Reflects docs i) (name : N) :
    Reflects (docs.erase name) (i.remove name) where
  names := by
    intro name'
    simp only [InvertedIndex.remove, ExtTreeSet.mem_erase, ExtTreeMap.mem_erase, h.names]
  keys := by
    simp only [InvertedIndex.remove, h.keys]
  entries := by
    intro key name'
    simp only [InvertedIndex.remove, lookup, h.keys]
    rw [mem_foldl_removeFrom, show i.entries[key]?.getD ∅ = i.lookup key from rfl, h.entries,
      ExtTreeMap.getElem?_erase]
    by_cases hname : name = name'
    · subst hname
      rw [if_pos Std.compare_self]
      constructor
      · rintro ⟨⟨keys, hkeys, hmem⟩, hnot⟩
        rw [hkeys] at hnot
        exact absurd ⟨rfl, hmem⟩ hnot
      · rintro ⟨keys, hkeys, -⟩
        cases hkeys
    · rw [if_neg (fun hcompare => hname (Std.compare_eq_iff_eq.mp hcompare))]
      constructor
      · exact fun hmem => hmem.1
      · exact fun hmem => ⟨hmem, fun hnot => hname hnot.1.symm⟩
  nonempty := List.foldlRecOn (motive := Tight) _ _ h.nonempty fun _ htight key _ =>
    Tight.removeFrom htight name key

theorem Reflects.add (h : Reflects docs i) {name : N} (hfresh : name ∉ docs) (keys : List K) :
    Reflects (docs.insert name keys) (i.add name keys) where
  names := by
    intro name'
    simp only [InvertedIndex.add, ExtTreeSet.mem_insert, ExtTreeMap.mem_insert, h.names]
  keys := by
    simp only [InvertedIndex.add, h.keys]
  entries := by
    intro key name'
    simp only [InvertedIndex.add, lookup]
    rw [mem_foldl_addTo, show i.entries[key]?.getD ∅ = i.lookup key from rfl, h.entries,
      ExtTreeMap.getElem?_insert]
    by_cases hname : name = name'
    · subst hname
      rw [if_pos Std.compare_self, ExtTreeMap.getElem?_eq_none hfresh]
      simp
    · rw [if_neg (fun hcompare => hname (Std.compare_eq_iff_eq.mp hcompare))]
      constructor
      · rintro (hmem | ⟨rfl, -⟩)
        · exact hmem
        · exact absurd rfl hname
      · exact Or.inl
  nonempty := List.foldlRecOn (motive := Tight) _ _ h.nonempty fun _ htight key _ =>
    Tight.addTo htight name key

/-- What filing a name does to the filings. -/
def refile (docs : BTreeMap N (List K)) (name : N) : Option (List K) → BTreeMap N (List K)
  | none => docs.erase name
  | some keys => docs.insert name keys

/-- **Filing a name anew takes back exactly what its earlier filing left.** -/
theorem Reflects.update (h : Reflects docs i) (name : N) (keys : Option (List K)) :
    Reflects (refile docs name keys) (i.update name keys) := by
  cases keys with
  | none => exact h.remove name
  | some keys =>
    have hfresh : name ∉ docs.erase name := by simp
    have hadd := (h.remove name).add hfresh keys
    rwa [BTreeMap.insert_erase] at hadd

/-- **The index is a function of the filings.** -/
theorem Reflects.unique {i' : InvertedIndex K N} (h : Reflects docs i) (h' : Reflects docs i') :
    i = i' := by
  obtain ⟨names, entries, keys⟩ := i
  obtain ⟨names', entries', keys'⟩ := i'
  have hnames : names = names' := by
    apply ExtTreeSet.ext_mem
    intro name
    exact (h.names name).trans (h'.names name).symm
  have hentries : entries = entries' := by
    apply ExtTreeMap.ext_getElem?
    intro key
    have hset : entries[key]?.getD ∅ = entries'[key]?.getD ∅ := by
      apply ExtTreeSet.ext_mem
      intro name
      exact (h.entries key name).trans (h'.entries key name).symm
    cases hold : entries[key]? with
    | none =>
      cases hnew : entries'[key]? with
      | none => rfl
      | some ns =>
        rw [hold, hnew] at hset
        exact absurd hset.symm (h'.nonempty key ns hnew)
    | some ns =>
      cases hnew : entries'[key]? with
      | none =>
        rw [hold, hnew] at hset
        exact absurd hset (h.nonempty key ns hold)
      | some ns' =>
        rw [hold, hnew] at hset
        exact congrArg some hset
  have hkeys : keys = keys' := h.keys.trans h'.keys.symm
  subst hnames hentries hkeys
  rfl

end InvertedIndex

end Flotilla.Lib
