import Flotilla.Query.Fields
import Flotilla.Lib.InvertedIndex
import Flotilla.Lib.Loop
import Flotilla.Resource

/-!
# The query index

An inverted index over the stored trees of one stream.  A tree is filed under its
labels, under every value of its declared fields, under the presence or the
absence of each of these, and under its owners (`objectKeys`).  The five sorts of
keys never meet, so each is read back on its own (`label_mem_objectKeys` and the
lemmas after it).

`run_reflects` : after every sequence of updates the index is the one that the
current trees leave.
-/

namespace Flotilla.Query

open Lib Std

instance instOrdPair : Ord (String × String) := lexOrd

structure DeclaredKind where
  kind : String
  queryableFields : List String
  replication : ReplicationClass

/-- The registered kinds, with the decoders of their projected fields. -/
structure Schema where
  kinds : List DeclaredKind
  decoders : SpecDecoders
  distinct : (kinds.map DeclaredKind.kind).Nodup

def Schema.values (c : Schema) (path : String) (value : Json) : List String :=
  declaredFieldValues c.decoders path value

def Schema.declaredFields (c : Schema) (value : Json) : List String :=
  match c.kinds.find? fun k => some k.kind = kindOf value with
  | some k => k.queryableFields
  | none => []

/-! ### The keys of a tree -/

def fieldKeys (c : Schema) (value : Json) (path : String) : List (String × String) :=
  (if (c.values path value).isEmpty then ("missing:" ++ path, "") else ("present:" ++ path, ""))
    :: (c.values path value).map fun v => ("field:" ++ path, v)

def objectKeys (c : Schema) (value : Json) : List (String × String) :=
  (labels value).map (fun (key, v) => ("label:" ++ key, v))
    ++ (c.declaredFields value).flatMap (fieldKeys c value)
    ++ (owners value).map fun owner => ("owner", owner.key)

abbrev QueryIndex := InvertedIndex (String × String) String

def QueryIndex.update (c : Schema) (i : QueryIndex) (name : String) (value : Option Json) :
    QueryIndex :=
  InvertedIndex.update i name (value.map (objectKeys c))

section Keys

variable {c : Schema} {value : Json} {path key v : String}

/-- Texts that start with different characters differ. -/
theorem ne_of_head? {s t : String} (h : s.toList.head? ≠ t.toList.head?) : s ≠ t := by
  rintro rfl
  exact h rfl

theorem label_mem_objectKeys :
    ("label:" ++ key, v) ∈ objectKeys c value ↔ (key, v) ∈ labels value := by
  simp only [objectKeys, fieldKeys, List.mem_append, List.mem_map, List.mem_flatMap,
    List.mem_cons, Prod.mk.injEq, Prod.exists, String.append_right_inj]
  constructor
  · rintro ((⟨k, w, hmem, rfl, rfl⟩ | ⟨p, -, hkey | ⟨w, -, hkey, -⟩⟩) | ⟨o, -, hkey, -⟩)
    · exact hmem
    · split at hkey <;> exact absurd (Prod.mk.inj hkey).1 (ne_of_head? (by simp))
    · exact absurd hkey (ne_of_head? (by simp))
    · exact absurd hkey (ne_of_head? (by simp))
  · exact fun hmem => .inl (Or.inl ⟨key, v, hmem, rfl, rfl⟩)

theorem field_mem_objectKeys :
    ("field:" ++ path, v) ∈ objectKeys c value ↔
      path ∈ c.declaredFields value ∧ v ∈ c.values path value := by
  simp only [objectKeys, fieldKeys, List.mem_append, List.mem_map, List.mem_flatMap,
    List.mem_cons, Prod.mk.injEq, Prod.exists, String.append_right_inj]
  constructor
  · rintro ((⟨k, w, -, hkey, -⟩ | ⟨p, hp, hkey | ⟨w, hw, rfl, rfl⟩⟩) | ⟨o, -, hkey, -⟩)
    · exact absurd hkey (ne_of_head? (by simp))
    · split at hkey <;> exact absurd (Prod.mk.inj hkey).1 (ne_of_head? (by simp))
    · exact ⟨hp, hw⟩
    · exact absurd hkey (ne_of_head? (by simp))
  · exact fun h => .inl (Or.inr ⟨path, h.1, .inr ⟨v, h.2, rfl, rfl⟩⟩)

/-- Presence and absence are filed under their own keys. -/
theorem marker_mem_objectKeys :
    (("present:" ++ path, "") ∈ objectKeys c value ↔
      path ∈ c.declaredFields value ∧ c.values path value ≠ []) ∧
    (("missing:" ++ path, "") ∈ objectKeys c value ↔
      path ∈ c.declaredFields value ∧ c.values path value = []) := by
  have hmem : ∀ t, t.toList.head? = some 'p' ∨ t.toList.head? = some 'm' →
      ((t, "") ∈ objectKeys c value ↔ ∃ p ∈ c.declaredFields value,
        (t, "") = if (c.values p value).isEmpty then ("missing:" ++ p, "")
          else ("present:" ++ p, "")) := by
    intro t ht
    simp only [objectKeys, fieldKeys, List.mem_append, List.mem_map, List.mem_flatMap,
      List.mem_cons, Prod.mk.injEq, Prod.exists]
    constructor
    · rintro ((⟨k, w, -, rfl, -⟩ | ⟨p, hp, hkey | ⟨w, -, rfl, -⟩⟩) | ⟨o, -, rfl, -⟩)
      · simp at ht
      · exact ⟨p, hp, hkey⟩
      · simp at ht
      · simp at ht
    · rintro ⟨p, hp, hkey⟩
      exact .inl (Or.inr ⟨p, hp, .inl hkey⟩)
  rw [hmem _ (Or.inl (by simp)), hmem _ (Or.inr (by simp))]
  constructor
  · constructor
    · rintro ⟨p, hp, hkey⟩
      split at hkey
      · exact absurd (Prod.mk.inj hkey).1 (ne_of_head? (by simp))
      next hvalues =>
        obtain rfl := (String.append_right_inj _).mp (Prod.mk.inj hkey).1
        exact ⟨hp, fun hnil => hvalues (List.isEmpty_iff.mpr hnil)⟩
    · rintro ⟨hp, hvalues⟩
      refine ⟨path, hp, ?_⟩
      rw [if_neg (fun hempty => hvalues (List.isEmpty_iff.mp hempty))]
  · constructor
    · rintro ⟨p, hp, hkey⟩
      split at hkey
      next hvalues =>
        obtain rfl := (String.append_right_inj _).mp (Prod.mk.inj hkey).1
        exact ⟨hp, List.isEmpty_iff.mp hvalues⟩
      · exact absurd (Prod.mk.inj hkey).1 (ne_of_head? (by simp))
    · rintro ⟨hp, hvalues⟩
      refine ⟨path, hp, ?_⟩
      rw [if_pos (List.isEmpty_iff.mpr hvalues)]

theorem owner_mem_objectKeys {owner : OwnerQuery} :
    ("owner", owner.key) ∈ objectKeys c value ↔ owner ∈ owners value := by
  simp only [objectKeys, fieldKeys, List.mem_append, List.mem_map, List.mem_flatMap,
    List.mem_cons, Prod.mk.injEq, Prod.exists]
  constructor
  · rintro ((⟨k, w, -, hkey, -⟩ | ⟨p, -, hkey | ⟨w, -, hkey, -⟩⟩) | ⟨o, ho, -, hkey⟩)
    · exact absurd hkey (ne_of_head? (by simp))
    · split at hkey <;> exact absurd (Prod.mk.inj hkey).1 (ne_of_head? (by simp))
    · exact absurd hkey (ne_of_head? (by simp))
    · rwa [← OwnerQuery.key_injective hkey]
  · exact fun ho => .inr ⟨owner, ho, trivial, rfl⟩

end Keys

/-! ### Sequences of updates -/

/-- The index is the one that the trees `objects` leave. -/
def Reflects (c : Schema) (objects : BTreeMap String Json) (i : QueryIndex) : Prop :=
  InvertedIndex.Reflects (objects.map fun _ value => objectKeys c value) i

variable {c : Schema} {objects : BTreeMap String Json} {i : QueryIndex}

theorem reflects_empty (c : Schema) : Reflects c ∅ {} := by
  exact InvertedIndex.reflects_empty

/-- What an update does to the trees. -/
def store (objects : BTreeMap String Json) (name : String) : Option Json → BTreeMap String Json
  | none => objects.erase name
  | some value => objects.insert name value

theorem Reflects.update (h : Reflects c objects i) (name : String) (value : Option Json) :
    Reflects c (store objects name value) (QueryIndex.update c i name value) := by
  have hupdate := InvertedIndex.Reflects.update h name (value.map (objectKeys c))
  unfold Reflects
  cases value with
  | none =>
    rw [store, BTreeMap.map_erase]
    exact hupdate
  | some value =>
    rw [store, BTreeMap.map_insert]
    exact hupdate

theorem Reflects.unique {i' : QueryIndex} (h : Reflects c objects i) (h' : Reflects c objects i') :
    i = i' :=
  InvertedIndex.Reflects.unique h h'

theorem Reflects.mem_names (h : Reflects c objects i) {name : String} :
    name ∈ i.names ↔ ∃ value, objects[name]? = some value := by
  rw [h.names, ExtTreeMap.mem_map, ExtTreeMap.mem_iff_isSome_getElem?,
    Option.isSome_iff_exists]

theorem Reflects.mem_lookup (h : Reflects c objects i) {key : String × String} {name : String} :
    name ∈ i.lookup key ↔ ∃ value, objects[name]? = some value ∧ key ∈ objectKeys c value := by
  rw [h.entries]
  simp only [ExtTreeMap.getElem?_map, Option.map_eq_some_iff]
  constructor
  · rintro ⟨keys, ⟨value, hvalue, rfl⟩, hmem⟩
    exact ⟨value, hvalue, hmem⟩
  · rintro ⟨value, hvalue, hmem⟩
    exact ⟨_, ⟨value, hvalue, rfl⟩, hmem⟩

/-- The trees after a sequence of updates. -/
def storeAll (updates : List (String × Option Json)) : BTreeMap String Json :=
  updates.foldl (fun objects u => store objects u.1 u.2) ∅

/-- The index after a sequence of updates. -/
def QueryIndex.updateAll (c : Schema) (updates : List (String × Option Json)) : QueryIndex :=
  updates.foldl (fun i u => QueryIndex.update c i u.1 u.2) {}

/-- **Every sequence of updates leaves the index of the current trees.** -/
theorem run_reflects (c : Schema) (updates : List (String × Option Json)) :
    Reflects c (storeAll updates) (QueryIndex.updateAll c updates) :=
  List.foldl_rel (reflects_empty c) fun u _ _ _ h => h.update u.1 u.2

/-- **The kept index files the current trees under all their keys, and is the one built afresh** by
listing them. -/
theorem updateAll_rebuilt (c : Schema) (updates : List (String × Option Json)) :
    Reflects c (storeAll updates) (QueryIndex.updateAll c updates) ∧
    QueryIndex.updateAll c updates = QueryIndex.updateAll c
      ((storeAll updates).toList.map fun entry => (entry.1, some entry.2)) := by
  refine ⟨run_reflects c updates, ?_⟩
  generalize hm : storeAll updates = m
  suffices hsame : storeAll (m.toList.map fun entry => (entry.1, some entry.2)) = m by
    have hrebuilt := run_reflects c (m.toList.map fun entry => (entry.1, some entry.2))
    rw [hsame] at hrebuilt
    exact Reflects.unique (hm ▸ run_reflects c updates) hrebuilt
  have hkey : ∀ (m : BTreeMap String Json) (entry : String × Json),
      (m.insert entry.1 entry.2)[entry.1]? = some entry.2 :=
    fun _ _ => ExtTreeMap.getElem?_insert_self
  have hother : ∀ (m : BTreeMap String Json) (entry : String × Json) name, entry.1 ≠ name →
      (m.insert entry.1 entry.2)[name]? = m[name]? := by
    intro m entry name hne
    simp [ExtTreeMap.getElem?_insert, hne]
  apply ExtTreeMap.ext_getElem?
  intro name
  rw [storeAll, List.foldl_map]
  cases hname : m[name]? with
  | none =>
    refine view_foldl_other (fun m name => m[name]?) hother (fun entry hentry heq => ?_) ∅
    rw [ExtTreeMap.mem_toList_iff_getElem?_eq_some, heq, hname] at hentry
    cases hentry
  | some value =>
    exact view_foldl_key (fun m name => m[name]?) (f := fun entry _ => some entry.2) hkey hother
      (nodup_keys_toList m) (ExtTreeMap.mem_toList_iff_getElem?_eq_some.mpr hname) ∅

end Flotilla.Query
