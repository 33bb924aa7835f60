import Flotilla.Lib.EventLog

/-!
# Reading a sorted list in pages

A page is the first items after a position; the next page starts after the last
item read.  Whatever the sizes of the pages, together they are a first part of the
list, and nothing is left out or read twice.
-/

namespace Flotilla.Lib.Paging

variable {A : Type}

/-- The first `limit` items whose key is above `after`. -/
def page (key : A → Nat) (l : List A) (after limit : Nat) : List A :=
  (l.filter fun a => after < key a).take limit

/-- Pages of the given sizes, each starting after the last item read. -/
def pages (key : A → Nat) (l : List A) : Nat → List Nat → List A
  | _, [] => []
  | after, limit :: limits =>
    page key l after limit ++
      pages key l ((page key l after limit).getLast?.elim after key) limits

variable {key : A → Nat} {l : List A}

/-- Above the last item of a first part of a sorted list is the rest of it. -/
theorem filter_above_last (hl : l.Pairwise fun a b => key a < key b) {n : Nat} {a : A}
    (ha : (l.take n).getLast? = some a) : l.filter (fun b => key a < key b) = l.drop n := by
  rw [← List.take_append_drop n l, List.pairwise_append] at hl
  obtain ⟨hfirst, -, hacross⟩ := hl
  conv_lhs => rw [← List.take_append_drop n l]
  refine EventLog.filter_after (fun b hb => ?_) (hacross a (List.mem_of_getLast? ha))
  obtain ⟨first, hlast⟩ := List.getLast?_eq_some_iff.mp ha
  rw [hlast, List.pairwise_append] at hfirst
  rw [hlast, List.mem_append, List.mem_singleton] at hb
  rcases hb with hb | rfl
  · exact (hfirst.2.2 b hb a (List.mem_singleton_self a)).le
  · exact le_rfl

/-- **Pages of any sizes are the items after the start, as many as the sizes allow.** -/
theorem pages_eq (hl : l.Pairwise fun a b => key a < key b) (after : Nat) (limits : List Nat) :
    pages key l after limits = (l.filter fun a => after < key a).take limits.sum := by
  induction limits generalizing after with
  | nil => simp [pages]
  | cons limit limits ih =>
    rw [pages, ih, page, List.sum_cons]
    have hrest : (l.filter fun a => after < key a).Pairwise fun a b => key a < key b := hl.filter _
    cases hlast : ((l.filter fun a => after < key a).take limit).getLast? with
    | none =>
      -- An empty page: its size is zero, or nothing is left.
      rw [List.getLast?_eq_none_iff, List.take_eq_nil_iff] at hlast
      rcases hlast with rfl | hnil
      · rw [List.take_zero, List.nil_append, Nat.zero_add]
        rfl
      · rw [Option.elim_none, hnil, List.take_nil, List.take_nil, List.take_nil, List.append_nil]
    | some a =>
      have hmem : a ∈ l.filter fun a => after < key a :=
        List.mem_of_mem_take (List.mem_of_getLast? hlast)
      have hafter : after < key a := by simpa using (List.mem_filter.mp hmem).2
      have hnext : (l.filter fun b => key a < key b) =
          (l.filter fun b => after < key b).drop limit := by
        rw [← filter_above_last hrest hlast, List.filter_filter]
        refine List.filter_congr fun b _ => ?_
        by_cases hb : key a < key b
        · simp [hb, hafter.trans hb]
        · simp [hb]
      rw [Option.elim_some, hnext, List.take_add]

end Flotilla.Lib.Paging
