import Flotilla.Lib.Table
import Flotilla.Lib.Loop

/-!
# Append-only records

The rows that a resource's edges append.  Positions are dense, start at zero and
are `u32`s, so a table holds at most `u32::MAX + 1` rows; both are fields of the
table.  Proofs about a table are about the list of its records (`Records.records`).
-/

namespace Flotilla.Engine

open Lib

/-- The number of `u32` values. -/
def u32Count : Nat := 2 ^ 32

/-- A `u32`. -/
abbrev U32 := Fin u32Count

theorem one_lt_u32Count : 1 < u32Count := by decide

/-- One appended row. -/
structure RecordRow (R : Type) where
  position : Nat
  /-- The owner's version after the write that appended the row. -/
  version : Nat
  record : R
  deriving DecidableEq

/-- An owner's append-only rows. -/
@[ext] structure Records (R : Type) where
  rows : List (RecordRow R)
  dense : rows.map RecordRow.position = List.range rows.length
  fits : rows.length ≤ u32Count
  deriving DecidableEq

/-- Every position of a record table is taken. -/
inductive RecordsFull where
  | full
  deriving DecidableEq, Repr

/-- The error as it is shown. -/
def RecordsFull.render : RecordsFull → String
  | .full => "a record table holds at most u32::MAX + 1 rows"

namespace Records

variable {R : Type}

/-- `Records::new`. -/
def new : Records R := ⟨[], rfl, Nat.zero_le _⟩

/-- The records, in order of position. -/
def records (table : Records R) : List R := table.rows.map RecordRow.record

/-- `Records::append`. -/
def append (table : Records R) (version : Nat) (record : R) : Except RecordsFull (Records R) :=
  if h : table.rows.length < u32Count then
    .ok {
      rows := table.rows ++ [{ position := table.rows.length, version, record }]
      dense := by simp [table.dense, List.range_succ]
      fits := by simpa using h }
  else .error .full

/-- `Records::get_mut`, and a change of the record it gives: its position and stamp stay. -/
def modify (table : Records R) (position : Nat) (f : R → R) : Records R where
  rows := table.rows.modify position fun row => { row with record := f row.record }
  dense := by
    rw [List.length_modify, ← table.dense]
    apply Table.map_key_modify
    intro row
    rfl
  fits := by simpa using table.fits

/-- The first row whose record satisfies `p`, as its position and record. -/
def find (table : Records R) (p : R → Bool) : Option (Nat × R) :=
  (table.rows.find? fun row => p row.record).map fun row => (row.position, row.record)

/-- The table that appending the records one by one to an empty one gives. -/
def ofList (version : Nat) (l : List R) (h : l.length ≤ u32Count) : Records R where
  rows := l.mapIdx fun position record => { position, version, record }
  dense := by
    apply List.ext_getElem?
    intro i
    by_cases hi : i < l.length
    · simp [hi]
    · simp [hi]
  fits := by simpa using h

/-! ### The records of a table -/

theorem length_records (table : Records R) : table.records.length = table.rows.length := by
  simp [records]

theorem length_records_le (table : Records R) : table.records.length ≤ u32Count := by
  rw [length_records]
  exact table.fits

variable {l : List R} {record : R} {table : Records R} {version : Nat}

@[simp] theorem records_modify (table : Records R) (position : Nat) (f : R → R) :
    (table.modify position f).records = table.records.modify position f := by
  apply List.ext_getElem?
  intro i
  simp only [records, modify, List.getElem?_map, List.getElem?_modify]
  by_cases hi : position = i <;> simp [hi]
  cases table.rows[i]? <;> rfl

@[simp] theorem records_ofList (h : l.length ≤ u32Count) : (ofList version l h).records = l := by
  apply List.ext_getElem?
  intro i
  simp only [records, ofList, List.getElem?_map, List.getElem?_mapIdx]
  cases l[i]? <;> rfl

theorem append_of_lt (version : Nat) (record : R) (h : table.records.length < u32Count) :
    ∃ table', table.append version record = .ok table' ∧
      table'.records = table.records ++ [record] := by
  rw [length_records] at h
  exact ⟨_, dif_pos h, by simp [records]⟩

theorem append_of_full (h : ¬ table.records.length < u32Count) :
    table.append version record = .error .full := by
  rw [length_records] at h
  exact dif_neg h

theorem records_append {table table' : Records R} (h : table.append version record = .ok table') :
    table.records.length < u32Count ∧ table'.records = table.records ++ [record] := by
  by_cases hlt : table.records.length < u32Count
  · obtain ⟨table'', happ, hrecords⟩ := append_of_lt version record hlt
    rw [h] at happ
    cases happ
    exact ⟨hlt, hrecords⟩
  · rw [append_of_full hlt] at h
    cases h

theorem snd_find (table : Records R) (p : R → Bool) :
    (table.find p).map Prod.snd = table.records.find? p := by
  rw [find, Option.map_map, records, List.find?_map]
  rfl

/-- A row is found at its position. -/
theorem getElem?_of_find {p : R → Bool} {position : Nat}
    (h : table.find p = some (position, record)) :
    table.records[position]? = some record ∧ p record = true := by
  obtain ⟨row, hrow, heq⟩ := Option.map_eq_some_iff.mp h
  cases heq
  obtain ⟨i, hi⟩ := List.mem_iff_getElem?.mp (List.mem_of_find?_eq_some hrow)
  have hpos : row.position = i := by
    have hlt := (List.getElem?_eq_some_iff.mp hi).1
    have hdense : (table.rows.map RecordRow.position)[i]? = (List.range table.rows.length)[i]? := by
      rw [table.dense]
    rw [List.getElem?_map, hi, List.getElem?_range hlt] at hdense
    exact Option.some.inj hdense
  have hp := List.find?_some hrow
  refine ⟨?_, hp⟩
  rw [records, hpos, List.getElem?_map, hi]
  rfl

/-- Appending one by one, as a loop. -/
theorem foldlM_append_eq_ofList (version : Nat) (h : l.length ≤ u32Count) :
    l.foldlM (fun table record => Records.append table version record) new =
      .ok (ofList version l h) := by
  induction l using List.reverseRecOn with
  | nil => rfl
  | append_singleton l record ih =>
    have hlt : l.length < u32Count := by simpa using h
    have hrows : (ofList version l hlt.le).rows.length < u32Count := by simpa [ofList] using hlt
    rw [List.foldlM_append, ih hlt.le, bind_ok rfl, List.foldlM_cons]
    have happ : (ofList version l hlt.le).append version record = .ok (ofList version _ h) := by
      rw [Records.append, dif_pos hrows]
      refine congrArg Except.ok (Records.ext ?_)
      simp [ofList]
    exact bind_ok happ

end Records

end Flotilla.Engine
