import Flotilla.Query.Index

/-!
# Selecting names

A query and the names that the index selects for it.  The conditions of a
`Selector` are looked up one by one and intersected; related-object selections
and alternatives are queries of their own, so the query is a tree and `namesOf` a
recursion over it.

`Satisfies` evaluates a query on a tree directly, given the rows of every kind.
The index looks for related objects in its own trees, whatever their source kind
(`ReadsOwn` says when these are the right rows).

`namesOf_iff` : after every sequence of updates the index answers with exactly the
names of the current trees that satisfy the query, when it reads its own rows.
-/

namespace Flotilla.Query

open Lib
open Std (ExtTreeMap ExtTreeSet)

/-! ### Queries -/

/-- The conditions of a query on one tree. -/
structure Selector where
  labels : BTreeMap String String := ∅
  fields : BTreeMap String String := ∅
  fieldValues : BTreeMap String (List String) := ∅
  fieldPrefixes : BTreeMap String String := ∅
  missingFields : BTreeSet String := ∅
  owner : Option OwnerQuery := none
  present : List String := []
  labelPrefixes : BTreeMap String String := ∅

/-- Match against the values of `field` on the rows that a query selects. -/
structure FieldQuery (Q : Type) where
  sourceKind : Option String := none
  field : String
  query : Q

/-- The related-object selections are listed in path order. -/
inductive StoreQuery where
  | mk (selector : Selector) (fieldMatchesQuery : List (String × FieldQuery StoreQuery))
      (anyOf : Option (List StoreQuery))

/-! ### The index's answer -/

def narrow (result : Option (BTreeSet String)) (names : BTreeSet String) :
    Option (BTreeSet String) :=
  match result with
  | none => some names
  | some found => some (found ∩ names)

def required (q : Selector) : List (String × String) :=
  q.labels.toList.map (fun (key, v) => ("label:" ++ key, v))
    ++ q.fields.toList.map (fun (path, v) => ("field:" ++ path, v))
    ++ q.present.map (fun path => ("present:" ++ path, ""))
    ++ q.owner.toList.map fun owner => ("owner", owner.key)

def membershipNames (i : QueryIndex) (path : String) (values : List String) : BTreeSet String :=
  .ofList (values.flatMap fun v => (i.lookup ("field:" ++ path, v)).toList) compare

def startNames (i : QueryIndex) (field start : String) : BTreeSet String :=
  .ofList ((i.stretch (field, start) fun key =>
    key.1 = field ∧ start.toList.isPrefixOf key.2.toList).flatMap fun e => e.2.toList) compare

/-- The conditions that are looked up one after the other, past the required keys. -/
def conditions (i : QueryIndex) (q : Selector) : List (BTreeSet String) :=
  q.fieldValues.toList.map (fun (path, values) => membershipNames i path values)
    ++ q.fieldPrefixes.toList.map (fun (path, start) => startNames i ("field:" ++ path) start)
    ++ q.labelPrefixes.toList.map (fun (key, start) => startNames i ("label:" ++ key) start)
    ++ q.missingFields.toList.map fun path => i.lookup ("missing:" ++ path, "")

/-- The values of a field that the selected names have. -/
def selectedValues (i : QueryIndex) (field : String) (selected : BTreeSet String) :
    BTreeSet String :=
  .ofList (((i.stretch ("field:" ++ field, "") fun key => key.1 = "field:" ++ field).filter
    fun e => !(e.2 ∩ selected).isEmpty).map fun e => e.1.2) compare

/-- The names that a selector and further sets admit; none when a required key has no entry. -/
def selected (i : QueryIndex) (selector : Selector) (more : List (BTreeSet String)) :
    BTreeSet String :=
  match (required selector).mapM (i.entries[·]?) with
  | none => ∅
  | some sets => ((sets ++ conditions i selector ++ more).foldl narrow none).getD i.names

mutual

def QueryIndex.namesOf (i : QueryIndex) : StoreQuery → BTreeSet String
  | .mk selector selections none => selected i selector (namesOfRelated i selections)
  | .mk selector selections (some queries) =>
    selected i selector (namesOfRelated i selections ++ [.ofList (namesOfAny i queries) compare])

-- The source kind of the selection is not read.
def namesOfRelated (i : QueryIndex) :
    List (String × FieldQuery StoreQuery) → List (BTreeSet String)
  | [] => []
  | (path, ⟨_, field, query⟩) :: rest =>
    membershipNames i path (selectedValues i field (QueryIndex.namesOf i query)).toList
      :: namesOfRelated i rest

def namesOfAny (i : QueryIndex) : List StoreQuery → List String
  | [] => []
  | query :: rest => (QueryIndex.namesOf i query).toList ++ namesOfAny i rest

end

/-! ### What the conditions say of a tree -/

/-- The selector's conditions, evaluated on one tree. -/
@[mk_iff]
structure Selector.Matches (c : Schema) (q : Selector) (value : Json) : Prop where
  labels : ∀ (key v : String), q.labels[key]? = some v → (key, v) ∈ Query.labels value
  fields : ∀ (path v : String), q.fields[path]? = some v → v ∈ c.values path value
  present : ∀ path ∈ q.present, c.values path value ≠ []
  owner : ∀ o, q.owner = some o → o ∈ owners value
  fieldValues : ∀ (path : String) (vs : List String), q.fieldValues[path]? = some vs →
    ∃ v ∈ vs, v ∈ c.values path value
  fieldPrefixes : ∀ (path start : String), q.fieldPrefixes[path]? = some start →
    ∃ v ∈ c.values path value, start.toList <+: v.toList
  labelPrefixes : ∀ (key start : String), q.labelPrefixes[key]? = some start →
    ∃ v, (key, v) ∈ Query.labels value ∧ start.toList <+: v.toList
  missingFields : ∀ path ∈ q.missingFields, c.values path value = []

/-- The fields that the conditions name. -/
def Selector.paths (q : Selector) : List String :=
  q.fields.keys ++ q.fieldValues.keys ++ q.fieldPrefixes.keys ++ q.missingFields.toList ++ q.present

/-- Every field the selector names is declared for the tree. -/
def Selector.Declared (c : Schema) (q : Selector) (value : Json) : Prop :=
  ∀ path ∈ q.paths, path ∈ c.declaredFields value

section Satisfies

variable (c : Schema) (rows : String → Json → Prop)

mutual

/-- A query for objects of one kind, evaluated on one tree.  `rows` says which trees of each kind
there are. -/
def Satisfies (kind : String) (value : Json) : StoreQuery → Prop
  | .mk selector selections none =>
    selector.Matches c value ∧ SatisfiesRelated kind value selections
  | .mk selector selections (some queries) =>
    selector.Matches c value ∧ SatisfiesRelated kind value selections ∧
      SatisfiesAny kind value queries

/-- One of the field's values is a value of a selected row of the source kind, which is the
query's own kind when none is given. -/
def SatisfiesRelated (kind : String) (value : Json) :
    List (String × FieldQuery StoreQuery) → Prop
  | [] => True
  | (path, ⟨source, field, query⟩) :: rest =>
    (∃ v ∈ c.values path value, ∃ row, rows (source.getD kind) row ∧
      Satisfies (source.getD kind) row query ∧ v ∈ c.values field row) ∧
      SatisfiesRelated kind value rest

def SatisfiesAny (kind : String) (value : Json) : List StoreQuery → Prop
  | [] => False
  | query :: rest => Satisfies kind value query ∨ SatisfiesAny kind value rest

end

variable (objects : BTreeMap String Json)

mutual

/-- Every field the query names is declared for every tree of the index, and the rows of every
related object's kind are the trees of the index. -/
def ReadsOwn (kind : String) : StoreQuery → Prop
  | .mk selector selections none =>
    (∀ (name : String) value, objects[name]? = some value → selector.Declared c value) ∧
      RelatedOwn kind selections
  | .mk selector selections (some queries) =>
    (∀ (name : String) value, objects[name]? = some value → selector.Declared c value) ∧
      RelatedOwn kind selections ∧ AnyOwn kind queries

def RelatedOwn (kind : String) : List (String × FieldQuery StoreQuery) → Prop
  | [] => True
  | (path, ⟨source, field, query⟩) :: rest =>
    ((∀ row, rows (source.getD kind) row ↔ ∃ name : String, objects[name]? = some row) ∧
      (∀ (name : String) value, objects[name]? = some value →
        path ∈ c.declaredFields value ∧ field ∈ c.declaredFields value) ∧
      ReadsOwn (source.getD kind) query) ∧ RelatedOwn kind rest

def AnyOwn (kind : String) : List StoreQuery → Prop
  | [] => True
  | query :: rest => ReadsOwn kind query ∧ AnyOwn kind rest

end

end Satisfies

/-! ### Intersections -/

variable {c : Schema} {objects : BTreeMap String Json} {i : QueryIndex}
  {rows : String → Json → Prop} {all names : BTreeSet String} {name : String}

theorem mem_narrow {result : Option (BTreeSet String)} (hnames : ∀ name ∈ names, name ∈ all) :
    name ∈ (narrow result names).getD all ↔ name ∈ result.getD all ∧ name ∈ names := by
  cases result with
  | none =>
    exact ⟨fun h => ⟨hnames name h, h⟩, fun h => h.2⟩
  | some found => exact ExtTreeSet.mem_inter_iff

theorem mem_foldl_narrow {sets : List (BTreeSet String)}
    (hsets : ∀ s ∈ sets, ∀ name ∈ s, name ∈ all) (result : Option (BTreeSet String)) :
    name ∈ (sets.foldl narrow result).getD all ↔
      name ∈ result.getD all ∧ ∀ s ∈ sets, name ∈ s := by
  induction sets generalizing result with
  | nil => simp
  | cons s sets ih =>
    rw [List.foldl_cons, ih (fun t ht => hsets t (List.mem_cons_of_mem _ ht)),
      mem_narrow (hsets s List.mem_cons_self), List.forall_mem_cons, and_assoc]

theorem Reflects.lookup_subset (h : Reflects c objects i) (key : String × String) :
    ∀ name ∈ i.lookup key, name ∈ i.names := by
  intro name hname
  obtain ⟨value, hvalue, -⟩ := h.mem_lookup.mp hname
  exact h.mem_names.mpr ⟨value, hvalue⟩

/-- The required keys have no entry for one of them, or the entries of all. -/
theorem mapM_entries (i : QueryIndex) (keys : List (String × String)) :
    (keys.mapM (i.entries[·]?) = none ∧ ∃ key ∈ keys, i.lookup key = ∅) ∨
      keys.mapM (i.entries[·]?) = some (keys.map i.lookup) := by
  induction keys with
  | nil => exact .inr rfl
  | cons key keys ih =>
    rw [List.mapM_cons, List.map_cons, InvertedIndex.lookup]
    cases hentry : i.entries[key]? with
    | none =>
      refine .inl ⟨rfl, key, List.mem_cons_self, ?_⟩
      rw [InvertedIndex.lookup, hentry]
      rfl
    | some names =>
      rcases ih with ⟨hnone, k, hk, hempty⟩ | hsome
      · exact .inl ⟨by rw [hnone]; rfl, k, List.mem_cons_of_mem _ hk, hempty⟩
      · exact .inr (by rw [hsome]; rfl)

/-! ### Prefixes

The keys with one field and a common start of their values follow one another in
key order.
-/

theorem compare_pair (a b : String × String) :
    compare a b = (compare a.1 b.1).then (compare a.2 b.2) := rfl

/-- Between a text and one of its continuations there are only continuations. -/
theorem start_of_between : ∀ {p v w : List Char}, ¬ v < p → v < w → p <+: w → p <+: v := by
  intro p
  induction p with
  | nil => intro v w _ _ _; exact List.nil_prefix
  | cons c p ih =>
    intro v w hge hlt hpre
    obtain ⟨r, rfl⟩ := hpre
    cases v with
    | nil => exact absurd (List.nil_lt_cons _ _) hge
    | cons d v =>
      rw [List.cons_append] at hlt
      rw [List.cons_lt_cons_iff] at hge hlt
      have hcd : d = c := by
        rcases hlt with hlt | ⟨heq, -⟩
        · exact absurd (Or.inl hlt) hge
        · exact heq
      subst hcd
      have hrest : v < p ++ r := by
        rcases hlt with hlt | ⟨-, hlt⟩
        · exact absurd hlt (lt_irrefl _)
        · exact hlt
      have hge' : ¬ v < p := fun h => hge (Or.inr ⟨rfl, h⟩)
      rw [List.cons_prefix_cons]
      exact ⟨rfl, ih hge' hrest (List.prefix_append p r)⟩

/-- A walk from a text on finds the entries of a field whose values start with the text. -/
theorem mem_stretch_start {field start : String} {p : String × String → Bool}
    (hp : ∀ key, p key = true ↔ key.1 = field ∧ start.toList <+: key.2.toList)
    {e : (String × String) × BTreeSet String} :
    e ∈ i.stretch (field, start) p ↔
      i.entries[e.1]? = some e.2 ∧ e.1.1 = field ∧ start.toList <+: e.1.2.toList := by
  rw [InvertedIndex.mem_stretch, hp]
  · rintro ⟨f, v⟩ hkey
    obtain ⟨rfl, hv⟩ := (hp _).mp hkey
    rw [compare_pair, Std.compare_self, Ordering.eq_then]
    have hge : ¬ v < start := fun h => hv.le (String.lt_iff_toList_lt.mp h)
    by_contra hlt
    rw [Bool.not_eq_false, Ordering.isLT_iff_eq_lt, compare_lt_iff_lt] at hlt
    exact hge hlt
  · rintro ⟨f, v⟩ ⟨f', v'⟩ hfrom hlt hkey
    obtain ⟨rfl, hv⟩ := (hp _).mp hkey
    rw [compare_pair] at hfrom hlt
    have hf : f = f' := by
      rcases lt_trichotomy f f' with h | h | h
      · rw [compare_lt_iff_lt.mpr h] at hfrom
        cases hfrom
      · exact h
      · rw [compare_gt_iff_gt.mpr h] at hlt
        cases hlt
    subst hf
    rw [Std.compare_self, Ordering.eq_then] at hfrom hlt
    refine (hp _).mpr ⟨rfl, start_of_between ?_ (String.lt_iff_toList_lt.mp
      (compare_lt_iff_lt.mp hlt)) hv⟩
    intro hbefore
    rw [compare_lt_iff_lt.mpr (String.lt_iff_toList_lt.mpr hbefore)] at hfrom
    cases hfrom

theorem mem_startNames {field start name : String} :
    name ∈ startNames i field start ↔
      ∃ v, start.toList <+: v.toList ∧ name ∈ i.lookup (field, v) := by
  unfold startNames
  have hp : ∀ key : String × String,
      decide (key.1 = field ∧ start.toList.isPrefixOf key.2.toList) = true ↔
        key.1 = field ∧ start.toList <+: key.2.toList := fun key => by
    rw [decide_eq_true_iff, List.isPrefixOf_iff_prefix]
  simp only [ExtTreeSet.mem_ofList, List.contains_iff_mem, List.mem_flatMap, mem_stretch_start hp,
    ExtTreeSet.mem_toList, InvertedIndex.mem_lookup_iff]
  constructor
  · rintro ⟨⟨⟨f, v⟩, names⟩, ⟨hentry, rfl, hv⟩, hname⟩
    exact ⟨v, hv, names, hentry, hname⟩
  · rintro ⟨v, hv, names, hentry, hname⟩
    exact ⟨((field, v), names), ⟨hentry, rfl, hv⟩, hname⟩

theorem mem_membershipNames {path name : String} {values : List String} :
    name ∈ membershipNames i path values ↔ ∃ v ∈ values, name ∈ i.lookup ("field:" ++ path, v) := by
  unfold membershipNames
  rw [ExtTreeSet.mem_ofList, List.contains_iff_mem, List.mem_flatMap]
  simp only [ExtTreeSet.mem_toList]

/-! ### The selector -/

section Value

variable {name : String} {value : Json}

theorem exists_current_iff (hvalue : objects[name]? = some value) {p : Json → Prop} :
    (∃ value, objects[name]? = some value ∧ p value) ↔ p value := by
  constructor
  · rintro ⟨value', hvalue', hp⟩
    rw [hvalue] at hvalue'
    cases hvalue'
    exact hp
  · exact fun hp => ⟨value, hvalue, hp⟩

theorem Reflects.mem_lookup_of (h : Reflects c objects i) (hvalue : objects[name]? = some value)
    {key : String × String} : name ∈ i.lookup key ↔ key ∈ objectKeys c value := by
  rw [h.mem_lookup]
  exact exists_current_iff hvalue

variable {q : Selector}

/-- The selector's conditions hold on a tree whose name is filed under all required keys and is in
every set that is looked up after them. -/
theorem Reflects.matches_iff (h : Reflects c objects i) (hvalue : objects[name]? = some value)
    (hq : q.Declared c value) :
    q.Matches c value ↔ (∀ key ∈ required q, name ∈ i.lookup key) ∧
      ∀ s ∈ conditions i q, name ∈ s := by
  simp only [Selector.Declared, Selector.paths, List.forall_mem_append, ExtTreeMap.mem_keys,
    ExtTreeSet.mem_toList] at hq
  obtain ⟨⟨⟨⟨hfields, hvalues⟩, hprefixes⟩, hmissing⟩, hpresent⟩ := hq
  simp only [Selector.matches_iff, required, conditions, List.forall_mem_append,
    List.forall_mem_map, Prod.forall, ExtTreeMap.mem_toList_iff_getElem?_eq_some,
    Option.mem_toList, ExtTreeSet.mem_toList, mem_membershipNames, mem_startNames,
    h.mem_lookup_of hvalue, label_mem_objectKeys, field_mem_objectKeys, owner_mem_objectKeys,
    marker_mem_objectKeys.1, marker_mem_objectKeys.2, and_assoc]
  refine and_congr_right fun _ => and_congr ?_ (and_congr ?_ (and_congr_right fun _ =>
    and_congr ?_ (and_congr ?_ (and_congr ?_ ?_))))
  · refine forall₂_congr fun path v => imp_congr_right fun hpath => ?_
    exact (and_iff_right (hfields path (BTreeMap.mem_of_lookup hpath))).symm
  · refine forall₂_congr fun path hpath => ?_
    exact (and_iff_right (hpresent path hpath)).symm
  · refine forall₂_congr fun path vs => imp_congr_right fun hpath => ?_
    simp only [hvalues path (BTreeMap.mem_of_lookup hpath), true_and]
  · refine forall₂_congr fun path start => imp_congr_right fun hpath => ?_
    simp only [hprefixes path (BTreeMap.mem_of_lookup hpath), true_and, and_comm]
  · simp only [and_comm]
  · refine forall₂_congr fun path hpath => ?_
    exact (and_iff_right (hmissing path hpath)).symm

end Value

/-- Every set that is looked up holds names that are filed. -/
theorem filed_of_mem_conditions (q : Selector) :
    ∀ s ∈ conditions i q, ∀ name ∈ s, ∃ key, name ∈ i.lookup key := by
  simp only [conditions, List.forall_mem_append, List.forall_mem_map, Prod.forall,
    mem_membershipNames, mem_startNames]
  refine ⟨⟨⟨?_, ?_⟩, ?_⟩, ?_⟩
  · exact fun _ _ _ _ ⟨_, _, hname⟩ => ⟨_, hname⟩
  · exact fun _ _ _ _ ⟨_, _, hname⟩ => ⟨_, hname⟩
  · exact fun _ _ _ _ ⟨_, _, hname⟩ => ⟨_, hname⟩
  · exact fun _ _ _ hname => ⟨_, hname⟩

/-- **The index selects the trees on which the selector's conditions hold**, and of
these the ones that the further sets admit. -/
theorem Reflects.mem_selected (h : Reflects c objects i) {q : Selector}
    (hq : ∀ (name : String) value, objects[name]? = some value → q.Declared c value)
    {more : List (BTreeSet String)} (hmore : ∀ s ∈ more, ∀ name ∈ s, name ∈ i.names) :
    name ∈ selected i q more ↔ ∃ value, objects[name]? = some value ∧ q.Matches c value ∧
      ∀ s ∈ more, name ∈ s := by
  have hmatches : ∀ value, objects[name]? = some value →
      (q.Matches c value ↔ (∀ key ∈ required q, name ∈ i.lookup key) ∧
        ∀ s ∈ conditions i q, name ∈ s) :=
    fun value hvalue => h.matches_iff hvalue (hq name value hvalue)
  unfold selected
  rcases mapM_entries i (required q) with ⟨hnone, key, hkey, hempty⟩ | hsome
  · rw [hnone]
    constructor
    · exact fun hname => absurd hname ExtTreeSet.not_mem_empty
    · rintro ⟨value, hvalue, hq', -⟩
      have hlookup := ((hmatches value hvalue).mp hq').1 key hkey
      rw [hempty] at hlookup
      exact absurd hlookup ExtTreeSet.not_mem_empty
  · have hsub : ∀ s ∈ (required q).map i.lookup ++ conditions i q ++ more, ∀ name ∈ s,
        name ∈ i.names := by
      simp only [List.forall_mem_append, List.forall_mem_map]
      refine ⟨⟨fun key _ => h.lookup_subset key, fun s hs name hname => ?_⟩, hmore⟩
      obtain ⟨key, hkey⟩ := filed_of_mem_conditions q s hs name hname
      exact h.lookup_subset key name hkey
    rw [hsome]
    simp only [mem_foldl_narrow hsub, Option.getD_none, List.forall_mem_append,
      List.forall_mem_map]
    rw [h.mem_names]
    constructor
    · rintro ⟨⟨value, hvalue⟩, hconditions, hmore⟩
      exact ⟨value, hvalue, (hmatches value hvalue).mpr hconditions, hmore⟩
    · rintro ⟨value, hvalue, hq', hmore⟩
      exact ⟨⟨value, hvalue⟩, (hmatches value hvalue).mp hq', hmore⟩

/-! ### The query tree -/

/-- The values of a declared field on the selected names. -/
theorem Reflects.mem_selectedValues (h : Reflects c objects i) {field v : String}
    (hfield : ∀ (name : String) value, objects[name]? = some value →
      field ∈ c.declaredFields value) :
    v ∈ selectedValues i field names ↔ ∃ (name : String) (value : Json), name ∈ names ∧
      objects[name]? = some value ∧ v ∈ c.values field value := by
  have hstretch : ∀ e : (String × String) × BTreeSet String,
      e ∈ i.stretch ("field:" ++ field, "") (fun key => key.1 = "field:" ++ field) ↔
        i.entries[e.1]? = some e.2 ∧ e.1.1 = "field:" ++ field := by
    intro e
    rw [mem_stretch_start (by simp)]
    simp
  have hshared : ∀ ns,
      (!(ns ∩ names).isEmpty) = true ↔ ∃ name, name ∈ ns ∧ name ∈ names := by
    intro ns
    rw [Bool.not_eq_true', Bool.eq_false_iff, ne_eq, ExtTreeSet.isEmpty_iff,
      ExtTreeSet.eq_empty_iff_forall_not_mem]
    simp only [ExtTreeSet.mem_inter_iff, not_forall, not_not]
  unfold selectedValues
  rw [ExtTreeSet.mem_ofList, List.contains_iff_mem, List.mem_map]
  constructor
  · rintro ⟨⟨⟨f, w⟩, ns⟩, he, rfl⟩
    obtain ⟨he, hsome⟩ := List.mem_filter.mp he
    obtain ⟨hentry, rfl⟩ := (hstretch _).mp he
    obtain ⟨name, hns, hname⟩ := (hshared ns).mp hsome
    obtain ⟨value, hvalue, hkey⟩ := h.mem_lookup.mp
      (InvertedIndex.mem_lookup_iff.mpr ⟨ns, hentry, hns⟩)
    exact ⟨name, value, hname, hvalue, (field_mem_objectKeys.mp hkey).2⟩
  · rintro ⟨name, value, hname, hvalue, hv⟩
    obtain ⟨ns, hentry, hns⟩ := InvertedIndex.mem_lookup_iff.mp
      (h.mem_lookup.mpr ⟨value, hvalue, field_mem_objectKeys.mpr ⟨hfield name value hvalue, hv⟩⟩)
    exact ⟨(("field:" ++ field, v), ns), List.mem_filter.mpr
      ⟨(hstretch _).mpr ⟨hentry, rfl⟩, (hshared ns).mpr ⟨name, hns, hname⟩⟩, rfl⟩

mutual

/-- **The index answers a query with the names of the trees that satisfy it.** -/
theorem Reflects.mem_namesOf (h : Reflects c objects i) : ∀ (q : StoreQuery) (kind : String),
    ReadsOwn c rows objects kind q → ∀ name : String,
      (name ∈ i.namesOf q ↔ ∃ value, objects[name]? = some value ∧ Satisfies c rows kind value q)
  | .mk selector selections none, kind, hq, name => by
    obtain ⟨hselector, hrelated⟩ := hq
    obtain ⟨hsubset, hmem⟩ := h.related selections kind hrelated
    rw [QueryIndex.namesOf, h.mem_selected hselector hsubset]
    refine exists_congr fun value => and_congr_right fun hvalue => ?_
    rw [Satisfies, hmem name value hvalue]
  | .mk selector selections (some queries), kind, hq, name => by
    obtain ⟨hselector, hrelated, hqueries⟩ := hq
    obtain ⟨hsubset, hmem⟩ := h.related selections kind hrelated
    obtain ⟨hanysubset, hany⟩ := h.any queries kind hqueries
    have hof : ∀ name, name ∈ (.ofList (namesOfAny i queries) compare : BTreeSet String) ↔
        name ∈ namesOfAny i queries := fun name => by
      rw [ExtTreeSet.mem_ofList, List.contains_iff_mem]
    have hall : ∀ s ∈ namesOfRelated i selections ++ [.ofList (namesOfAny i queries) compare],
        ∀ name ∈ s, name ∈ i.names :=
      List.forall_mem_append.mpr ⟨hsubset, List.forall_mem_singleton.mpr fun name hname =>
        hanysubset name ((hof name).mp hname)⟩
    rw [QueryIndex.namesOf, h.mem_selected hselector hall]
    refine exists_congr fun value => and_congr_right fun hvalue => ?_
    rw [Satisfies, List.forall_mem_append, List.forall_mem_singleton, hof, hmem name value hvalue,
      hany name value hvalue]

theorem Reflects.related (h : Reflects c objects i) :
    ∀ (selections : List (String × FieldQuery StoreQuery)) (kind : String),
      RelatedOwn c rows objects kind selections →
      (∀ s ∈ namesOfRelated i selections, ∀ name ∈ s, name ∈ i.names) ∧
      ∀ (name : String) value, objects[name]? = some value →
        ((∀ s ∈ namesOfRelated i selections, name ∈ s) ↔
          SatisfiesRelated c rows kind value selections)
  | [], _, _ => by
    refine ⟨?_, ?_⟩
    · intro s hs
      exact absurd hs List.not_mem_nil
    · intro name value _
      exact iff_of_true (fun s hs => absurd hs List.not_mem_nil) trivial
  | (path, ⟨source, field, query⟩) :: rest, kind, hown => by
    obtain ⟨⟨hrows, hpath, hquery⟩, hrest⟩ := hown
    obtain ⟨hsubset, hmem⟩ := h.related rest kind hrest
    refine ⟨List.forall_mem_cons.mpr ⟨?_, hsubset⟩, ?_⟩
    · intro name hname
      obtain ⟨v, -, hname⟩ := mem_membershipNames.mp hname
      exact h.lookup_subset _ name hname
    · intro name value hvalue
      rw [namesOfRelated, List.forall_mem_cons, SatisfiesRelated, hmem name value hvalue]
      refine and_congr_left fun _ => ?_
      rw [mem_membershipNames]
      simp only [ExtTreeSet.mem_toList, h.mem_lookup_of hvalue, field_mem_objectKeys,
        h.mem_selectedValues fun name value hvalue => (hpath name value hvalue).2,
        h.mem_namesOf query _ hquery, hrows]
      constructor
      · rintro ⟨v, ⟨name', value', ⟨row, hrow, hsatisfies⟩, hvalue', hv'⟩, -, hv⟩
        obtain rfl : row = value' := Option.some.inj (hrow.symm.trans hvalue')
        exact ⟨v, hv, row, ⟨name', hrow⟩, hsatisfies, hv'⟩
      · rintro ⟨v, hv, row, ⟨name', hrow⟩, hsatisfies, hv'⟩
        exact ⟨v, ⟨name', row, ⟨row, hrow, hsatisfies⟩, hrow, hv'⟩, (hpath name value hvalue).1, hv⟩

theorem Reflects.any (h : Reflects c objects i) :
    ∀ (queries : List StoreQuery) (kind : String), AnyOwn c rows objects kind queries →
      (∀ name ∈ namesOfAny i queries, name ∈ i.names) ∧
      ∀ (name : String) value, objects[name]? = some value →
        (name ∈ namesOfAny i queries ↔ SatisfiesAny c rows kind value queries)
  | [], _, _ => by
    refine ⟨fun name hname => absurd hname List.not_mem_nil, ?_⟩
    intro name value _
    exact iff_of_false List.not_mem_nil id
  | query :: rest, kind, hown => by
    obtain ⟨hsubset, hmem⟩ := h.any rest kind hown.2
    have hquery := h.mem_namesOf query kind hown.1
    refine ⟨List.forall_mem_append.mpr ⟨?_, hsubset⟩, ?_⟩
    · intro name hname
      obtain ⟨value, hvalue, -⟩ := (hquery name).mp (ExtTreeSet.mem_toList.mp hname)
      exact h.mem_names.mpr ⟨value, hvalue⟩
    · intro name value hvalue
      rw [namesOfAny, List.mem_append, ExtTreeSet.mem_toList, hquery, hmem name value hvalue,
        SatisfiesAny]
      exact or_congr_left (exists_current_iff hvalue)

end

/-- A tree with nothing but its kind and its name. -/
def namedTree (kind name : String) : Json :=
  .object [("kind", .string kind), ("metadata", .object [("name", .string name)])]

def projectSchema : Schema where
  kinds := [
    ⟨"Project", ["metadata.name", "spec.repositories[].repo", "spec.charter",
      "spec.repositories.*.charter_store.host"], .definitions⟩,
    ⟨"Forge", ["metadata.name", "spec.remote_hosts.*"], .definitions⟩]
  decoders := ⟨fun _ => none, fun _ => none, fun _ => none⟩
  distinct := by decide

/-- The project `beta` was declared and removed again. -/
def projectUpdates : List (String × Option Json) :=
  [("alpha", some (namedTree "Project" "alpha")), ("beta", some (namedTree "Project" "beta")),
    ("beta", none)]

/-- There is the project `alpha` and the forge `github`. -/
def projectRows (kind : String) (row : Json) : Prop :=
  kind = "Project" ∧ row = namedTree "Project" "alpha" ∨
    kind = "Forge" ∧ row = namedTree "Forge" "github"

/-- The projects with the name of an object of the source kind. -/
def namedAs (source : Option String) : StoreQuery :=
  .mk {} [("metadata.name", ⟨source, "metadata.name", .mk {} [] none⟩)] none

theorem lookup_projectUpdates {value : Json} :
    (storeAll projectUpdates)[name]? = some value ↔
      name = "alpha" ∧ value = namedTree "Project" "alpha" := by
  have hlist : (storeAll projectUpdates).toList = [("alpha", namedTree "Project" "alpha")] := rfl
  rw [← ExtTreeMap.mem_toList_iff_getElem?_eq_some, hlist, List.mem_singleton, Prod.mk.injEq]

theorem declared_empty (c : Schema) (value : Json) : ({} : Selector).Declared c value := by
  simp [Selector.Declared, Selector.paths]

end Flotilla.Query
