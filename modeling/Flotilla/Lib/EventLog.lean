import Mathlib

/-!
# Histories, trimmed logs and rings

A history is every entry ever appended, each with a version, in increasing
order.  A store keeps two ends of it: a log, which is the history without a
trimmed front whose last version is the floor, and a ring, which is its last
`capacity` entries.

* `Retains.push` : appending and trimming to a positive limit keeps the log.
* `Retains.replay` : from a version not below the floor, the log replays what
  the history holds after that version.
* `LastOf.push`, `LastOf.lookup` : appending to the ring, and reading an entry by
  its position in the history.
* `filter_after` : what comes after a version, in a history cut at that version.
-/

namespace Flotilla.Lib.EventLog

variable {E : Type} {version : E → Nat} {history log : List E} {floor : Nat}

/-- The versions of a history only grow. -/
def Increasing (version : E → Nat) (history : List E) : Prop :=
  history.Pairwise fun a b => version a < version b

/-- The log is the history without a front of versions up to the floor. -/
def Retains (version : E → Nat) (history log : List E) (floor : Nat) : Prop :=
  ∃ trimmed, history = trimmed ++ log ∧ ∀ e ∈ trimmed, version e ≤ floor

theorem Increasing.append (h : Increasing version history) {e : E}
    (he : ∀ a ∈ history, version a < version e) : Increasing version (history ++ [e]) := by
  refine List.pairwise_append.mpr ⟨h, List.pairwise_singleton _ _, ?_⟩
  intro a ha b hb
  rw [List.mem_singleton.mp hb]
  exact he a ha

/-- In an increasing list everything up to a position has at most its version. -/
theorem Increasing.le_of_mem_take (h : Increasing version history) {n : Nat} {last : E}
    (hlast : history[n]? = some last) {e : E} (he : e ∈ history.take (n + 1)) :
    version e ≤ version last := by
  obtain ⟨i, hi, rfl⟩ := List.mem_iff_getElem.mp he
  obtain ⟨hn, rfl⟩ := List.getElem?_eq_some_iff.mp hlast
  rw [List.length_take] at hi
  rw [List.getElem_take]
  rcases Nat.lt_or_eq_of_le (show i ≤ n by omega) with hlt | rfl
  · exact (List.pairwise_iff_getElem.mp h i n _ hn hlt).le
  · rfl

theorem Retains.append (h : Retains version history log floor) (e : E) :
    Retains version (history ++ [e]) (log ++ [e]) floor := by
  obtain ⟨trimmed, rfl, hfloor⟩ := h
  exact ⟨trimmed, List.append_assoc _ _ _, hfloor⟩

/-- Trimming a front of the log raises the floor to the last version trimmed. -/
theorem Retains.trim (h : Retains version history log floor) (hinc : Increasing version history)
    {n : Nat} {last : E} (hlast : log[n]? = some last) :
    Retains version history (log.drop (n + 1)) (version last) := by
  obtain ⟨trimmed, rfl, -⟩ := h
  refine ⟨trimmed ++ log.take (n + 1), by simp, ?_⟩
  intro e he
  have hlast' : (trimmed ++ log)[trimmed.length + n]? = some last := by
    rw [List.getElem?_append_right (Nat.le_add_right _ _), Nat.add_sub_cancel_left]
    exact hlast
  refine hinc.le_of_mem_take hlast' ?_
  rwa [Nat.add_assoc, List.take_length_add_append]

/-- The floor after a trim of `n` entries. -/
def floorAfter (version : E → Nat) (log : List E) (n floor : Nat) : Nat :=
  if 0 < n then
    match log[n - 1]? with
    | some last => version last
    | none => floor
  else floor

/-- **Appending to a log that keeps at most `limit` entries.** -/
theorem Retains.push (h : Retains version history log floor) (hinc : Increasing version history)
    {limit : Nat} (hlimit : 0 < limit) (e : E) :
    Retains version (history ++ [e]) (log.drop (log.length + 1 - limit) ++ [e])
      (floorAfter version log (log.length + 1 - limit) floor) := by
  apply Retains.append
  unfold floorAfter
  cases hexcess : log.length + 1 - limit with
  | zero => exact h
  | succ n =>
    have hn : n < log.length := by omega
    rw [if_pos (Nat.succ_pos n), Nat.add_sub_cancel, List.getElem?_eq_getElem hn]
    exact h.trim hinc (List.getElem?_eq_getElem hn)

/-- What comes after a version, where the history is cut at that version. -/
theorem filter_after {v : Nat} {front rest : List E} (hfront : ∀ e ∈ front, version e ≤ v)
    (hrest : ∀ e ∈ rest, v < version e) :
    (front ++ rest).filter (fun e => v < version e) = rest := by
  rw [List.filter_append, List.filter_eq_nil_iff.mpr, List.filter_eq_self.mpr, List.nil_append]
  · intro e he
    exact decide_eq_true (hrest e he)
  · intro e he h
    exact absurd (of_decide_eq_true h) (not_lt.mpr (hfront e he))

/-- **The log replays the history after every version it still covers.** -/
theorem Retains.replay (h : Retains version history log floor) {v : Nat} (hv : floor ≤ v) :
    log.filter (fun e => v < version e) = history.filter fun e => v < version e := by
  obtain ⟨trimmed, rfl, hfloor⟩ := h
  have hnone : trimmed.filter (fun e => v < version e) = [] := by
    rw [List.filter_eq_nil_iff]
    intro e he h
    exact absurd (of_decide_eq_true h) (not_lt.mpr ((hfloor e he).trans hv))
  rw [List.filter_append, hnone, List.nil_append]

/-! ### Rings -/

/-- The ring is the last `capacity` entries. -/
def LastOf (capacity : Nat) (history ring : List E) : Prop :=
  ring = history.drop (history.length - capacity)

variable {capacity : Nat} {ring : List E}

theorem LastOf.length (h : LastOf capacity history ring) :
    ring.length = min history.length capacity := by
  rw [h, List.length_drop]
  omega

theorem LastOf.push (h : LastOf capacity history ring) (e : E) :
    LastOf capacity (history ++ [e]) ((ring ++ [e]).drop (ring.length + 1 - capacity)) := by
  have hlength := h.length
  unfold LastOf at *
  subst h
  rw [← List.drop_append_of_le_length (Nat.sub_le _ _), List.drop_drop, List.length_append,
    List.length_singleton]
  congr 1
  omega

theorem LastOf.lookup (h : LastOf capacity history ring) {position : Nat}
    (hcapacity : history.length - position ≤ capacity) (hposition : position ≤ history.length) :
    ring[ring.length - (history.length - position)]? = history[position]? := by
  have hlength := h.length
  rw [hlength, h, List.getElem?_drop]
  congr 1
  omega

end Flotilla.Lib.EventLog
