import Flotilla.Image.Resolve
import Flotilla.Lib.Descent

/-!
# What a resolved image is

Resolution ends for every catalogue and request, and the layers it returns are a
composition (`Composed`): one base layer in front, no name twice, every need and
requirement provided, and every layer after the layers that provide what it
requires and does not provide itself.

The selection only grows (`Grown`), so what a step provides stays provided; each
round of the requires closure chooses a default layer with a new name, so the loop
is left (`resolveImage_settles`).  Within a tier the loop that places layers keeps
`Arranged`; across tiers the order follows from the check that nothing is required
of a higher tier.
-/

namespace Flotilla.Image

open Lib Std

/-! ### The selection grows -/

variable {after before selected selected' : Selected} {capability need reference : String}
  {effective : EffectiveImageCatalogue} {fuel : Nat} {layer provider : ImageLayerSpec}
  {layers : List ImageLayerSpec} {m : BTreeMap String (BTreeSet String)} {request : ImageRequest}
  {requiredBy : Option String}

theorem Selected.mem_values :
    layer ∈ selected.values ↔ ∃ name : String, selected[name]? = some layer := by
  simp [Selected.values, ExtTreeMap.mem_toList_iff_getElem?_eq_some]

/-- Chosen layers stay; a new one is seen by the project, is entered under its name and is no base
layer. -/
structure Grown (effective : EffectiveImageCatalogue) (before after : Selected) : Prop where
  kept : ∀ (name : String) (layer : ImageLayerSpec),
    before[name]? = some layer → after[name]? = some layer
  added : ∀ (name : String) (layer : ImageLayerSpec), after[name]? = some layer →
    before[name]? = some layer ∨
      layer.name = name ∧ layer.tier ≠ .base ∧ layer ∈ effective.layers

theorem Grown.refl (selected : Selected) : Grown effective selected selected :=
  ⟨fun _ _ h => h, fun _ _ h => .inl h⟩

theorem Grown.trans {a b c : Selected} (hab : Grown effective a b) (hbc : Grown effective b c) :
    Grown effective a c := by
  refine ⟨fun name layer h => hbc.kept name layer (hab.kept name layer h), ?_⟩
  intro name layer h
  rcases hbc.added name layer h with hb | hnew
  · exact hab.added name layer hb
  · exact .inr hnew

theorem Grown.mem_values (h : Grown effective before after) (hl : layer ∈ before.values) :
    layer ∈ after.values := by
  obtain ⟨name, hname⟩ := Selected.mem_values.mp hl
  exact Selected.mem_values.mpr ⟨name, h.kept name layer hname⟩

theorem Grown.insert (hseen : layer ∈ effective.layers) (hbase : layer.tier ≠ .base)
    (hnew : layer.name ∉ selected) :
    Grown effective selected (selected.insert layer.name layer) := by
  constructor
  · intro name chosen h
    rw [ExtTreeMap.getElem?_insert, if_neg]
    · exact h
    · intro hname
      rw [Std.compare_eq_iff_eq.mp hname] at hnew
      exact hnew (BTreeMap.mem_of_lookup h)
  · exact BTreeMap.forall_insert (.inr ⟨rfl, hbase, hseen⟩) fun _ _ _ => .inl

theorem select_of_not_mem (h : layer.name ∉ selected) :
    select selected layer = .ok (selected.insert layer.name layer) := by
  rw [select, ExtTreeMap.getElem?_eq_none h]

theorem select_grown (hseen : layer ∈ effective.layers) (hbase : layer.tier ≠ .base)
    (h : select selected layer = .ok selected') : Grown effective selected selected' := by
  by_cases hmem : layer.name ∈ selected
  · obtain ⟨existing, hexisting⟩ := Option.isSome_iff_exists.mp
      (ExtTreeMap.mem_iff_isSome_getElem?.mp hmem)
    simp only [select, hexisting] at h
    split at h
    · cases h
      exact .refl selected
    · cases h
  · rw [select_of_not_mem hmem] at h
    cases h
    exact .insert hseen hbase hmem

/-- Some chosen layer provides the need. -/
def Provided (need : String) (selected : Selected) : Prop :=
  ∃ layer ∈ selected.values, provides layer need = true

theorem Provided.grown (h : Provided need before) (hg : Grown effective before after) :
    Provided need after := by
  obtain ⟨layer, hl, hp⟩ := h
  exact ⟨layer, hg.mem_values hl, hp⟩

theorem provided_iff : selected.values.any (provides · need) = true ↔ Provided need selected := by
  simp [Provided]

/-- What a lookup by capability finds: nothing to do, or a new default layer. -/
theorem provider_eq_ok {found : Option ImageLayerSpec}
    (h : effective.provider selected capability requiredBy = .ok found) :
    found = none ∧ Provided capability selected ∨
      ∃ layer ∈ effective.defaultLayers, found = some layer ∧ layer.tier ≠ .base ∧
        layer.name ∉ selected ∧ provides layer capability = true ∧
          ¬ Provided capability selected := by
  unfold EffectiveImageCatalogue.provider at h
  split at h
  case isTrue hany =>
    cases h
    exact .inl ⟨rfl, provided_iff.mp hany⟩
  case isFalse hany =>
    obtain ⟨_, -, h⟩ := bind_eq_ok h
    split at h
    case h_1 => cases h
    case h_2 layer hcandidates =>
      cases h
      have hmem : layer ∈ [layer] := List.mem_singleton_self layer
      rw [← hcandidates, List.mem_filter] at hmem
      simp only [Bool.and_eq_true, decide_eq_true_eq] at hmem
      exact .inr ⟨layer, hmem.1, rfl, hmem.2.1.1, hmem.2.1.2, hmem.2.2,
        fun hp => hany (provided_iff.mpr hp)⟩
    case h_3 => cases h

/-- Choosing the provider of a need: it was provided already, or a new default layer that
provides it is chosen. -/
inductive Chosen (effective : EffectiveImageCatalogue) (need : String) (selected : Selected) :
    Selected → Prop where
  | already (h : Provided need selected) : Chosen effective need selected selected
  | new (layer : ImageLayerSpec) (hdefault : layer ∈ effective.defaultLayers)
      (hbase : layer.tier ≠ .base) (hnew : layer.name ∉ selected)
      (hprovides : provides layer need = true) :
      Chosen effective need selected (selected.insert layer.name layer)

theorem EffectiveImageCatalogue.mem_layers : layer ∈ effective.layers ↔
    ∃ (name : String) (versions : List ImageLayerSpec), effective.byName[name]? = some versions ∧
      layer ∈ versions := by
  simp [layers, ExtTreeMap.mem_toList_iff_getElem?_eq_some]

theorem EffectiveImageCatalogue.mem_layers_of_default (h : layer ∈ effective.defaultLayers) :
    layer ∈ effective.layers := by
  obtain ⟨entry, hentry, hlast⟩ := List.mem_filterMap.mp h
  exact List.mem_flatMap.mpr ⟨entry, hentry, List.mem_of_getLast? hlast⟩

theorem Chosen.grown (h : Chosen effective need selected selected') :
    Grown effective selected selected' ∧ Provided need selected' := by
  cases h with
  | already h => exact ⟨.refl selected, h⟩
  | new layer hdefault hbase hnew hprovides =>
    refine ⟨.insert (effective.mem_layers_of_default hdefault) hbase hnew, layer, ?_, hprovides⟩
    exact Selected.mem_values.mpr ⟨layer.name, ExtTreeMap.getElem?_insert_self⟩

/-- The provider of a capability is chosen unless `refuse` turns it down. -/
theorem chosen_of_provider {refuse : ImageLayerSpec → Except ImageResolutionError Unit}
    (h : (do
      match ← effective.provider selected capability requiredBy with
      | none => return selected
      | some layer =>
        refuse layer
        select selected layer) = .ok selected') :
    Chosen effective capability selected selected' := by
  obtain ⟨found, hfound, h⟩ := bind_eq_ok h
  rcases provider_eq_ok hfound with ⟨rfl, hp⟩ | ⟨layer, hd, rfl, hbase, hnew, hp, -⟩
  · cases h
    exact .already hp
  · obtain ⟨_, -, h⟩ := bind_eq_ok h
    rw [select_of_not_mem hnew] at h
    cases h
    exact .new layer hd hbase hnew hp

theorem addProvider_chosen (h : addProvider effective selected need requiredBy = .ok selected') :
    Chosen effective need selected selected' := chosen_of_provider h

theorem addRuntime_chosen (h : addRuntime effective selected capability = .ok selected') :
    Chosen effective capability selected selected' := chosen_of_provider h

theorem byReference_eq_ok {tier : ImageLayerTier}
    (h : byReference effective reference tier = .ok layer) :
    layer.tier = tier ∧ layer ∈ effective.layers := by
  obtain ⟨found, hfound, h⟩ := bind_eq_ok h
  obtain ⟨htier, h⟩ := of_refuseIf h
  cases h
  obtain ⟨_, -, hfound⟩ := bind_eq_ok hfound
  obtain ⟨versions, hversions, hfound⟩ := bind_eq_ok hfound
  have hmem := List.mem_of_find?_eq_some (okOr_eq_ok.mp hfound)
  exact ⟨not_not.mp htier, effective.mem_layers.mpr
    ⟨_, versions, okOr_eq_ok.mp hversions, List.mem_reverse.mp hmem⟩⟩

theorem selectShared_grown (h : selectShared effective selected reference = .ok selected') :
    Grown effective selected selected' := by
  obtain ⟨layer, hlayer, h⟩ := bind_eq_ok h
  have hbase : layer.tier ≠ .base := by
    rw [(byReference_eq_ok hlayer).1]
    decide
  exact select_grown (byReference_eq_ok hlayer).2 hbase h

theorem selectProject_grown (h : selectProject effective selected = .ok selected') :
    Grown effective selected selected' := by
  obtain ⟨_, -, h⟩ := bind_eq_ok h
  split at h
  case h_1 =>
    cases h
    exact .refl selected
  case h_2 layer hlayers =>
    have hmem : layer ∈ [layer] := List.mem_singleton_self layer
    rw [← hlayers, List.mem_filter, decide_eq_true_eq] at hmem
    refine select_grown (effective.mem_layers_of_default hmem.1) ?_ h
    rw [hmem.2]
    decide
  case h_3 => cases h

/-- The chosen layers stand under their names, and one of them is the base layer. -/
structure Based (selected : Selected) : Prop where
  keyed : ∀ (name : String) (layer : ImageLayerSpec), selected[name]? = some layer →
    layer.name = name
  base : ∃ b ∈ selected.values, b.tier = .base ∧ ∀ layer ∈ selected.values,
    layer.tier = .base → layer = b

theorem Based.singleton (h : layer.tier = .base) :
    Based ((∅ : Selected).insert layer.name layer) := by
  have hlookup : ∀ name chosen,
      ((∅ : Selected).insert layer.name layer)[name]? = some chosen →
        layer.name = name ∧ layer = chosen := by
    refine BTreeMap.forall_insert ⟨rfl, rfl⟩ fun name chosen _ hc => ?_
    simp at hc
  constructor
  · intro name chosen hc
    obtain ⟨hname, rfl⟩ := hlookup name chosen hc
    exact hname
  · refine ⟨layer, Selected.mem_values.mpr ⟨layer.name, ExtTreeMap.getElem?_insert_self⟩, h, ?_⟩
    intro chosen hc _
    obtain ⟨name, hname⟩ := Selected.mem_values.mp hc
    exact (hlookup name chosen hname).2.symm

theorem Based.grown (h : Based before) (hg : Grown effective before after) : Based after := by
  constructor
  · intro name layer hl
    rcases hg.added name layer hl with hold | ⟨hname, -⟩
    · exact h.keyed name layer hold
    · exact hname
  · obtain ⟨b, hb, htier, honly⟩ := h.base
    refine ⟨b, hg.mem_values hb, htier, fun layer hl hbase => ?_⟩
    obtain ⟨name, hname⟩ := Selected.mem_values.mp hl
    rcases hg.added name layer hname with hold | ⟨-, hne, -⟩
    · exact honly layer (Selected.mem_values.mpr ⟨name, hold⟩) hbase
    · exact absurd hbase hne

/-- The project sees every chosen layer. -/
def Seen (effective : EffectiveImageCatalogue) (selected : Selected) : Prop :=
  ∀ (name : String) (layer : ImageLayerSpec), selected[name]? = some layer →
    layer ∈ effective.layers

theorem Seen.grown (h : Seen effective before) (hg : Grown effective before after) :
    Seen effective after := fun name layer hl =>
  (hg.added name layer hl).elim (h name layer) (·.2.2)

/-- What choosing for the request leaves. -/
theorem selectRequested_eq_ok (h : selectRequested effective request = .ok selected) :
    Based selected ∧ Seen effective selected ∧
      (∀ capability ∈ request.runtime, Provided capability selected) ∧
      ∀ need ∈ request.plainNeeds, Provided need selected := by
  obtain ⟨reference, -, hrest⟩ := bind_eq_ok h
  obtain ⟨base, hbase, hrest⟩ := bind_eq_ok hrest
  obtain ⟨s₁, h₁, hrest⟩ := bind_eq_ok hrest
  obtain rfl := Except.ok.inj h₁
  obtain ⟨s₂, h₂, hrest⟩ := bind_eq_ok hrest
  obtain ⟨s₃, h₃, hrest⟩ := bind_eq_ok hrest
  obtain ⟨s₄, h₄, h₅⟩ := bind_eq_ok hrest
  have hshared := (foldlM_grows Grown.refl (fun _ _ _ => Grown.trans)
    (fun _ _ _ _ _ => trivial) (fun _ _ _ hs => ⟨selectShared_grown hs, trivial⟩) h₂).1
  have hproject := selectProject_grown h₃
  obtain ⟨hruntime, hcapabilities⟩ := foldlM_grows (Q := Provided) Grown.refl
    (fun _ _ _ => Grown.trans) (fun _ _ _ => Provided.grown)
    (fun _ _ _ hs => (addRuntime_chosen hs).grown) h₄
  obtain ⟨hneeds, hplain⟩ := foldlM_grows (Q := Provided) Grown.refl
    (fun _ _ _ => Grown.trans) (fun _ _ _ => Provided.grown)
    (fun _ _ _ hs => (addProvider_chosen hs).grown) h₅
  have hgrown := ((hshared.trans hproject).trans hruntime).trans hneeds
  have hseen : Seen effective ((∅ : Selected).insert base.name base) :=
    BTreeMap.forall_insert (byReference_eq_ok hbase).2 fun _ _ _ h => by simp at h
  exact ⟨(Based.singleton (byReference_eq_ok hbase).1).grown hgrown, hseen.grown hgrown,
    fun capability hc => (hcapabilities capability hc).grown hneeds, hplain⟩

/-! ### The requires closure -/

theorem missing_eq_none (h : selected.missing = none) :
    ∀ layer ∈ selected.values, ∀ need ∈ layer.requires, Provided need selected := by
  intro layer hl need hn
  have hall := List.find?_eq_none.mp h (need, layer.name) (List.mem_flatMap.mpr
    ⟨layer, hl, List.mem_map_of_mem (ExtTreeSet.mem_toList.mpr hn)⟩)
  exact provided_iff.mp (by simpa using hall)

theorem missing_eq_some {need requiredBy : String}
    (h : selected.missing = some (need, requiredBy)) : ¬ Provided need selected := by
  have hfound := List.find?_some h
  intro hp
  rw [Bool.not_eq_true', ← Bool.not_eq_true] at hfound
  exact hfound (provided_iff.mpr hp)

/-- A round of the closure chooses the provider of a requirement that had none. -/
theorem closeRequires_eq_some (h : closeRequires effective selected = .ok (some selected')) :
    ∃ need, ¬ Provided need selected ∧ Chosen effective need selected selected' := by
  unfold closeRequires at h
  split at h
  case h_1 => cases h
  case h_2 need requiredBy hmissing =>
    cases hadd : addProvider effective selected need (some requiredBy) with
    | error e =>
      rw [hadd] at h
      cases h
    | ok s =>
      rw [hadd] at h
      cases h
      exact ⟨need, missing_eq_some hmissing, addProvider_chosen hadd⟩

theorem closeRequires_eq_none (h : closeRequires effective selected = .ok none) :
    selected.missing = none := by
  unfold closeRequires at h
  split at h
  case h_1 hmissing => exact hmissing
  case h_2 =>
    exfalso
    revert h
    cases addProvider effective selected _ _ <;> simp [Except.map]

/-- The default layers whose name is not chosen. -/
def unchosen (effective : EffectiveImageCatalogue) (selected : Selected) : Nat :=
  effective.defaultLayers.countP fun layer => decide (layer.name ∉ selected)

theorem unchosen_lt (h : closeRequires effective selected = .ok (some selected')) :
    unchosen effective selected' < unchosen effective selected := by
  obtain ⟨need, hmissing, hchosen⟩ := closeRequires_eq_some h
  cases hchosen with
  | already hp => exact absurd hp hmissing
  | new layer hdefault _ hnew _ =>
    refine countP_lt_countP ?_ hdefault (by simpa using hnew) (by simp)
    intro other _ hother
    simp only [decide_eq_true_eq, ExtTreeMap.mem_insert, not_or] at hother
    simpa using hother.2

/-! ### Placing the layers of a tier -/

/-- `layer` is still to wait for the name. -/
def Waits (m : BTreeMap String (BTreeSet String)) (layer name : String) : Prop :=
  ∃ waiting : BTreeSet String, m[layer]? = some waiting ∧ name ∈ waiting

theorem lookup_addBlockers (name : String) :
    (addBlockers layers m layer)[name]? = if layer.name = name then
      some ((m[layer.name]?.getD ∅).insertMany ((layers.filter (blocks layer)).map (·.name)))
      else m[name]? := by
  rw [addBlockers, ExtTreeMap.getElem?_alter]
  simp only [Std.compare_eq_iff_eq]

theorem waits_addBlockers {a b : String}
    (h : Waits m a b ∨ layer.name = a ∧ ∃ p ∈ layers, blocks layer p = true ∧ p.name = b) :
    Waits (addBlockers layers m layer) a b := by
  by_cases ha : layer.name = a
  · refine ⟨_, by rw [lookup_addBlockers, if_pos ha], ?_⟩
    rw [ExtTreeSet.mem_insertMany_list]
    rcases h with ⟨waiting, hw, hb⟩ | ⟨-, p, hp, hblocks, rfl⟩
    · left
      rw [ha, hw]
      exact hb
    · right
      simpa using ⟨p, ⟨hp, hblocks⟩, rfl⟩
  · rcases h with ⟨waiting, hw, hb⟩ | ⟨hname, -⟩
    · exact ⟨waiting, by rw [lookup_addBlockers, if_neg ha, hw], hb⟩
    · exact absurd hname ha

/-- Every layer is entered, and waits for the names of the layers that block it. -/
theorem blockersOf_spec (layers : List ImageLayerSpec) :
    (∀ name, name ∈ blockersOf layers ↔ ∃ layer ∈ layers, layer.name = name) ∧
      ∀ layer ∈ layers, ∀ p ∈ layers, blocks layer p = true →
        Waits (blockersOf layers) layer.name p.name := by
  have hfold : ∀ (l : List ImageLayerSpec) (m : BTreeMap String (BTreeSet String)),
      (∀ a b, Waits m a b → Waits (l.foldl (addBlockers layers) m) a b) ∧
      ∀ layer ∈ l, ∀ p ∈ layers, blocks layer p = true →
        Waits (l.foldl (addBlockers layers) m) layer.name p.name := by
    intro l
    induction l with
    | nil => exact fun m => ⟨fun _ _ h => h, by simp⟩
    | cons layer l ih =>
      intro m
      obtain ⟨hkept, hnew⟩ := ih (addBlockers layers m layer)
      refine ⟨fun a b h => hkept a b (waits_addBlockers (.inl h)),
        fun layer' hl' p hp hblocks => ?_⟩
      rcases List.mem_cons.mp hl' with rfl | hmem
      · exact hkept _ _ (waits_addBlockers (.inr ⟨rfl, p, hp, hblocks, rfl⟩))
      · exact hnew layer' hmem p hp hblocks
  refine ⟨fun name => ?_, (hfold layers ∅).2⟩
  rw [blockersOf, foldl_or (P := fun m => name ∈ m) (Q := (·.name = name))]
  · simp
  · intro m layer
    rw [ExtTreeMap.mem_iff_isSome_getElem?, lookup_addBlockers, ExtTreeMap.mem_iff_isSome_getElem?]
    split <;> simp_all

/-- The invariant of the placing loop. -/
structure Arranged (layers : List ImageLayerSpec) (s : Arranging) : Prop where
  placed : ∀ layer ∈ s.ordered, layer ∈ layers
  left : ∀ layer ∈ layers, layer.name ∈ s.blockers ↔ layer ∉ s.ordered
  once : s.ordered.Nodup
  waits : ∀ layer ∈ layers, layer ∉ s.ordered → ∀ p ∈ layers, blocks layer p = true →
    p ∉ s.ordered → Waits s.blockers layer.name p.name
  closed : ∀ layer ∈ s.ordered, ∀ p ∈ layers, blocks layer p = true → p ∈ s.ordered
  sorted : s.ordered.Pairwise fun earlier later => blocks earlier later = false

/-- What placing a layer does. -/
theorem placeNext_eq_some {s s' : Arranging} (h : placeNext layers s = .ok (some s')) :
    ∃ layer ∈ layers, layer.name ∈ s.blockers ∧ (∀ name, ¬ Waits s.blockers layer.name name) ∧
      s' = { blockers := (s.blockers.erase layer.name).map fun _ waiting => waiting.erase layer.name
             ordered := s.ordered ++ [layer] } := by
  unfold placeNext at h
  split at h
  · cases h
  · split at h
    case h_1 => cases h
    case h_2 next waiting hnext =>
      split at h
      case h_1 => cases h
      case h_2 layer hlayer =>
        cases h
        obtain ⟨hmem, rfl⟩ := of_find? hlayer
        have hlookup := ExtTreeMap.mem_toList_iff_getElem?_eq_some.mp
          (List.mem_of_find?_eq_some hnext)
        have hempty : waiting.isEmpty = true := by simpa using List.find?_some hnext
        refine ⟨layer, hmem, BTreeMap.mem_of_lookup hlookup, ?_, rfl⟩
        rintro name ⟨waiting', hw, hmem⟩
        obtain rfl := Option.some.inj (hlookup.symm.trans hw)
        rw [ExtTreeSet.isEmpty_iff.mp hempty] at hmem
        exact ExtTreeSet.not_mem_empty hmem

theorem waits_release {next a b : String} (h : Waits m a b) (ha : a ≠ next) (hb : b ≠ next) :
    Waits ((m.erase next).map fun _ waiting => waiting.erase next) a b := by
  obtain ⟨waiting, hw, hmem⟩ := h
  refine ⟨waiting.erase next, ?_, ?_⟩
  · rw [ExtTreeMap.getElem?_map, ExtTreeMap.getElem?_erase, if_neg, hw]
    · rfl
    · exact fun heq => ha (Std.compare_eq_iff_eq.mp heq).symm
  · rw [ExtTreeSet.mem_erase]
    exact ⟨fun heq => hb (Std.compare_eq_iff_eq.mp heq).symm, hmem⟩

/-- **Placing a layer keeps the invariant.** -/
theorem Arranged.placeNext (hinj : ∀ a ∈ layers, ∀ b ∈ layers, a.name = b.name → a = b)
    {s s' : Arranging} (hs : Arranged layers s) (h : placeNext layers s = .ok (some s')) :
    Arranged layers s' := by
  obtain ⟨layer, hlayer, hleft, hfree, rfl⟩ := placeNext_eq_some h
  have hfresh : layer ∉ s.ordered := (hs.left layer hlayer).mp hleft
  -- The layers that block the placed one were placed before it.
  have hclosed : ∀ p ∈ layers, blocks layer p = true → p ∈ s.ordered := by
    intro p hp hblocks
    by_contra hnot
    exact hfree p.name (hs.waits layer hlayer hfresh p hp hblocks hnot)
  have hname : ∀ other ∈ layers, other ≠ layer → other.name ≠ layer.name :=
    fun other hother hne heq => hne (hinj other hother layer hlayer heq)
  have hmem : ∀ other, other ∈ s.ordered ++ [layer] ↔ other ∈ s.ordered ∨ other = layer := by simp
  constructor
  case placed =>
    intro other hother
    rcases (hmem other).mp hother with hold | rfl
    · exact hs.placed other hold
    · exact hlayer
  case left =>
    intro other hother
    have hkeys : other.name ∈ ((s.blockers.erase layer.name).map fun _ waiting =>
        waiting.erase layer.name) ↔ layer.name ≠ other.name ∧ other.name ∈ s.blockers := by
      rw [ExtTreeMap.mem_map, ExtTreeMap.mem_erase, ne_eq, Std.compare_eq_iff_eq]
    rw [hkeys, hs.left other hother, hmem, not_or]
    constructor
    · rintro ⟨hne, hnot⟩
      exact ⟨hnot, fun heq => hne (heq ▸ rfl)⟩
    · rintro ⟨hnot, hne⟩
      exact ⟨(hname other hother hne).symm, hnot⟩
  case once => exact List.nodup_append.mpr ⟨hs.once, List.nodup_singleton layer, by
    rintro a ha b hb rfl
    exact hfresh (List.mem_singleton.mp hb ▸ ha)⟩
  case waits =>
    intro other hother hnot p hp hblocks hpnot
    rw [hmem, not_or] at hnot hpnot
    exact waits_release (hs.waits other hother hnot.1 p hp hblocks hpnot.1)
      (hname other hother hnot.2) (hname p hp hpnot.2)
  case closed =>
    intro other hother p hp hblocks
    rcases (hmem other).mp hother with hold | rfl
    · exact (hmem p).mpr (.inl (hs.closed other hold p hp hblocks))
    · exact (hmem p).mpr (.inl (hclosed p hp hblocks))
  case sorted =>
    refine List.pairwise_append.mpr ⟨hs.sorted, List.pairwise_singleton _ _, ?_⟩
    intro earlier hearlier later hlater
    rw [List.mem_singleton.mp hlater]
    by_contra hblocks
    exact hfresh (hs.closed earlier hearlier layer hlayer (by simpa using hblocks))

/-- **A tier is ordered**: the same layers, once each, none before one that blocks it. -/
theorem topological_eq_ok {layers ordered : List ImageLayerSpec}
    (hinj : ∀ a ∈ layers, ∀ b ∈ layers, a.name = b.name → a = b)
    (h : topological fuel layers = .ok ordered) :
    (∀ layer, layer ∈ ordered ↔ layer ∈ layers) ∧ ordered.Nodup ∧
      ordered.Pairwise fun earlier later => blocks earlier later = false := by
  obtain ⟨arranged, hloop, hordered⟩ := bind_eq_ok h
  obtain rfl := Except.ok.inj hordered
  obtain ⟨hkeys, hwaits⟩ := blockersOf_spec layers
  have hinit : Arranged layers { blockers := blockersOf layers, ordered := [] } :=
    { placed := by simp
      left := fun layer hl => by simpa using (hkeys layer.name).mpr ⟨layer, hl, rfl⟩
      once := List.nodup_nil
      waits := fun layer hl _ p hp hblocks _ => hwaits layer hl p hp hblocks
      closed := by simp
      sorted := List.Pairwise.nil }
  obtain ⟨hend, hexit⟩ := whileM_invariant (fun _ _ => Arranged.placeNext hinj) hinit hloop
  refine ⟨fun layer => ⟨hend.placed layer, fun hl => ?_⟩, hend.once, hend.sorted⟩
  -- The loop is left only with no layer waiting.
  have hempty : arranged.blockers = ∅ := by
    unfold placeNext at hexit
    split at hexit
    case isTrue he => exact ExtTreeMap.isEmpty_iff.mp he
    case isFalse =>
      split at hexit
      · cases hexit
      · split at hexit <;> cases hexit
  by_contra hnot
  have hleft := (hend.left layer hl).mpr hnot
  rw [hempty] at hleft
  exact ExtTreeMap.not_mem_empty hleft

theorem placeNext_size_lt {s s' : Arranging} (h : placeNext layers s = .ok (some s')) :
    s'.blockers.size < s.blockers.size := by
  obtain ⟨layer, -, hmem, -, rfl⟩ := placeNext_eq_some h
  have herase := ExtTreeMap.size_erase (t := s.blockers) (k := layer.name)
  rw [if_pos (ExtTreeMap.contains_iff_mem.mpr hmem)] at herase
  have hne : s.blockers.size ≠ 0 := by
    intro hzero
    rw [ExtTreeMap.eq_empty_iff_size_eq_zero.mpr hzero] at hmem
    exact ExtTreeMap.not_mem_empty hmem
  simp only [ExtTreeMap.size_map]
  omega

/-! ### Termination -/

theorem closeRequires_ne_running (effective : EffectiveImageCatalogue) (selected : Selected) :
    closeRequires effective selected ≠ .error .running := by
  unfold closeRequires
  split
  · simp
  · exact refusing_ne_running _

theorem placeNext_ne_running (layers : List ImageLayerSpec) (s : Arranging) :
    placeNext layers s ≠ .error .running := by
  unfold placeNext
  split
  · simp
  · split
    · simp
    · split <;> simp

theorem checkHarness_settles (selected : Selected) (harness : String × String) :
    Settles fun _ => checkHarness selected harness := by
  refine .of_eq (n := 0) ?_ fun _ _ => rfl
  simp only [checkHarness]
  split
  · simp
  · exact refusing_ne_running _

/-- **Resolution ends** for every catalogue and request. -/
theorem resolveImage_settles (library : Library) (catalogue : List ImageLayerSpec)
    (request : ImageRequest) : Settles fun fuel => resolveImage library fuel catalogue request := by
  refine (settles_panicking _).bind fun effective => ?_
  refine (settles_refusing _).bind fun selected => ?_
  refine (settles_whileM (unchosen _) (closeRequires_ne_running _)
    (fun _ _ => unchosen_lt) selected).bind fun selected => ?_
  refine (Settles.forM (checkHarness_settles selected) _).bind fun _ => ?_
  refine (settles_refusing _).bind fun _ => ?_
  refine .bind ?_ fun layers => settles_ok _
  refine .foldlM (fun layers tier => ?_) tiers []
  refine .bind ?_ fun placed => settles_ok _
  refine .bind ?_ fun arranged => settles_ok _
  exact settles_whileM (fun s => s.blockers.size) (placeNext_ne_running _)
    (fun _ _ => placeNext_size_lt) _

/-! ### The order across tiers -/

/-- `layer` requires something that the other layer provides and it does not. -/
def Needs (layer provider : ImageLayerSpec) : Prop :=
  provider ≠ layer ∧ ∃ need ∈ layer.requires, provides provider need = true ∧
    provides layer need = false

/-- A chosen layer needs nothing of a higher tier. -/
theorem tier_le_of_needs {validate : ImageLayerSpec → Except String Unit} {u : Unit}
    (h : selected.values.forM (checkLayer validate selected) = .ok u) (hl : layer ∈ selected.values)
    (hp : provider ∈ selected.values) (hneeds : Needs layer provider) :
    provider.tier.rank ≤ layer.tier.rank := by
  obtain ⟨-, need, hneed, hprovides, hnot⟩ := hneeds
  obtain ⟨_, -, hrequires⟩ := bind_eq_ok (forM_eq_ok h layer hl)
  have hcheck := forM_eq_ok hrequires need (ExtTreeSet.mem_toList.mpr hneed)
  rw [checkRequirement, hnot] at hcheck
  have hup := forM_eq_ok hcheck provider (List.mem_filter.mpr ⟨hp, hprovides⟩)
  exact Nat.le_of_not_lt (refuseIf_eq_ok.mp hup)

/-- Within a tier, what a layer needs blocks it. -/
theorem blocks_of_needs (h : Needs layer provider) (hname : provider.name ≠ layer.name) :
    blocks layer provider = true := by
  obtain ⟨-, need, hneed, hprovides, -⟩ := h
  rw [blocks, Bool.and_eq_true]
  refine ⟨by simpa using hname, List.any_eq_true.mpr ?_⟩
  exact ⟨need, ExtTreeSet.mem_toList.mpr hneed, hprovides⟩

theorem ImageLayerTier.rank_injective : Function.Injective ImageLayerTier.rank := by
  intro a b
  cases a <;> cases b <;> decide

/-- Chosen layers with one name are one layer. -/
theorem Based.name_injective (h : Based selected) :
    ∀ a ∈ selected.values, ∀ b ∈ selected.values, a.name = b.name → a = b := by
  intro a ha b hb hname
  obtain ⟨n, hn⟩ := Selected.mem_values.mp ha
  obtain ⟨m, hm⟩ := Selected.mem_values.mp hb
  have hnm : n = m := by rw [← h.keyed n a hn, ← h.keyed m b hm, hname]
  subst hnm
  exact Option.some.inj (hn.symm.trans hm)

/-- `earlier` may stand before `later`. -/
def InOrder (earlier later : ImageLayerSpec) : Prop :=
  earlier.tier.rank ≤ later.tier.rank ∧ ¬ Needs earlier later

/-- **The tiers in a row**: the chosen layers of the given tiers, once each and in order. -/
theorem appendTiers_eq_ok (hbased : Based selected)
    (htier : ∀ layer ∈ selected.values, ∀ p ∈ selected.values, Needs layer p →
      p.tier.rank ≤ layer.tier.rank) {ts : List ImageLayerTier}
    (hts : ts.Pairwise fun a b => a.rank < b.rank) {start layers : List ImageLayerSpec}
    (h : ts.foldlM (appendTier fuel selected) start = .ok layers) :
    ∃ more, layers = start ++ more ∧
      (∀ layer, layer ∈ more ↔ layer ∈ selected.values ∧ layer.tier ∈ ts) ∧ more.Nodup ∧
        more.Pairwise InOrder := by
  induction ts generalizing start with
  | nil =>
    obtain rfl := Except.ok.inj h
    exact ⟨[], by simp⟩
  | cons tier ts ih =>
    obtain ⟨next, hnext, hrest⟩ := bind_eq_ok h
    obtain ⟨placed, hplaced, hnext⟩ := bind_eq_ok hnext
    obtain rfl := Except.ok.inj hnext
    obtain ⟨hlt, hts⟩ := List.pairwise_cons.mp hts
    obtain ⟨more, rfl, hmem, honce, horder⟩ := ih hts hrest
    have hinj : ∀ a ∈ selected.values.filter (·.tier = tier),
        ∀ b ∈ selected.values.filter (·.tier = tier), a.name = b.name → a = b := fun a ha b hb =>
      hbased.name_injective a (List.mem_of_mem_filter ha) b (List.mem_of_mem_filter hb)
    obtain ⟨hpmem, hponce, hporder⟩ := topological_eq_ok hinj hplaced
    have hpmem' : ∀ layer, layer ∈ placed ↔ layer ∈ selected.values ∧ layer.tier = tier := by
      intro layer
      rw [hpmem, List.mem_filter, decide_eq_true_eq]
    refine ⟨placed ++ more, by rw [List.append_assoc], ?_, ?_, ?_⟩
    · intro layer
      rw [List.mem_append, hpmem', hmem, List.mem_cons]
      tauto
    · refine List.nodup_append.mpr ⟨hponce, honce, ?_⟩
      rintro a ha b hb rfl
      have hlater := hlt a.tier ((hmem a).mp hb).2
      rw [((hpmem' a).mp ha).2] at hlater
      exact lt_irrefl _ hlater
    · refine List.pairwise_append.mpr ⟨?_, horder, ?_⟩
      · refine hporder.imp_of_mem ?_
        intro earlier later he hl hfree
        obtain ⟨hearlier, rfl⟩ := (hpmem' earlier).mp he
        obtain ⟨hlater, htier'⟩ := (hpmem' later).mp hl
        refine ⟨by rw [htier'], fun hneeds => ?_⟩
        have hname : later.name ≠ earlier.name := fun heq => hneeds.1
          (hbased.name_injective later hlater earlier hearlier heq)
        rw [blocks_of_needs hneeds hname] at hfree
        cases hfree
      · intro earlier he later hl
        obtain ⟨hearlier, rfl⟩ := (hpmem' earlier).mp he
        obtain ⟨hlater, hlater'⟩ := (hmem later).mp hl
        have hup := hlt later.tier hlater'
        refine ⟨Nat.le_of_lt hup, fun hneeds => ?_⟩
        exact absurd hup (Nat.not_lt.mpr (htier earlier hearlier later hlater hneeds))

/-! ### Composition -/

/-- What a list of layers has to be, to be the image of a request. -/
structure Composed (request : ImageRequest) (layers : List ImageLayerSpec) : Prop where
  base : ∃ b rest, layers = b :: rest ∧ b.tier = .base ∧ ∀ layer ∈ rest, layer.tier ≠ .base
  once : (layers.map (·.name)).Nodup
  needs : ∀ need ∈ request.needs, harnessAdapter need = none →
    ∃ layer ∈ layers, provides layer need = true
  utilities : ∃ layer ∈ layers, provides layer "crew:utilities" = true
  requires : ∀ layer ∈ layers, ∀ need ∈ layer.requires,
    ∃ provider ∈ layers, provides provider need = true
  order : ∀ before layer after, layers = before ++ layer :: after →
    ∀ provider ∈ layers, Needs layer provider → provider ∈ before

/-- Where no layer stands before one it needs, what a layer needs stands before it. -/
theorem mem_before_of_needs {before after : List ImageLayerSpec}
    (h : (before ++ layer :: after).Pairwise InOrder) (hp : provider ∈ before ++ layer :: after)
    (hneeds : Needs layer provider) : provider ∈ before := by
  rcases List.mem_append.mp hp with hbefore | hrest
  · exact hbefore
  rcases List.mem_cons.mp hrest with heq | hafter
  · exact absurd heq hneeds.1
  · exact absurd hneeds
      ((List.pairwise_cons.mp (List.pairwise_append.mp h).2.1).1 provider hafter).2

/-- The base layer stands in front. -/
theorem exists_base_first (hbased : Based selected)
    (hmem : ∀ layer, layer ∈ layers ↔ layer ∈ selected.values) (honce : layers.Nodup)
    (horder : layers.Pairwise InOrder) :
    ∃ b rest, layers = b :: rest ∧ b.tier = .base ∧ ∀ layer ∈ rest, layer.tier ≠ .base := by
  obtain ⟨b, hb, htier, honly⟩ := hbased.base
  cases layers with
  | nil => exact absurd ((hmem b).mpr hb) List.not_mem_nil
  | cons first rest =>
    have hfirst : first = b := by
      rcases List.mem_cons.mp ((hmem b).mpr hb) with heq | hrest
      · exact heq.symm
      · -- Nothing stands before a base layer but a base layer.
        have hle := ((List.pairwise_cons.mp horder).1 b hrest).1
        rw [htier] at hle
        have hbase : first.tier = .base := ImageLayerTier.rank_injective (Nat.le_zero.mp hle)
        exact honly first ((hmem first).mp List.mem_cons_self) hbase
    refine ⟨b, rest, by rw [hfirst], htier, fun layer hl hbase => ?_⟩
    have heq := honly layer ((hmem layer).mp (List.mem_cons_of_mem first hl)) hbase
    exact (List.nodup_cons.mp honce).1 (hfirst ▸ heq ▸ hl)

/-- The chosen layers that a resolution returns, and what was seen to of them. -/
structure Resolves (request : ImageRequest) (selected : Selected) (layers : List ImageLayerSpec) :
    Prop where
  based : Based selected
  runtime : ∀ capability ∈ request.runtime, Provided capability selected
  plain : ∀ need ∈ request.plainNeeds, Provided need selected
  closed : ∀ layer ∈ selected.values, ∀ need ∈ layer.requires, Provided need selected
  harness : ∀ harness ∈ request.harnessNeeds, checkHarness selected harness = .ok ()
  all : ∀ layer, layer ∈ layers ↔ layer ∈ selected.values
  once : layers.Nodup
  order : layers.Pairwise InOrder

theorem resolves_of_resolveImage {library : Library} {catalogue : List ImageLayerSpec}
    {resolved : ResolvedImage} (h : resolveImage library fuel catalogue request = .ok resolved) :
    ∃ selected, Resolves request selected resolved.layers := by
  obtain ⟨effective, -, hrest⟩ := bind_eq_ok h
  obtain ⟨requested, hrequested, hrest⟩ := bind_eq_ok hrest
  obtain ⟨hbased, -, hruntime, hplain⟩ := selectRequested_eq_ok (refusing_eq_ok.mp hrequested)
  obtain ⟨selected, hloop, hrest⟩ := bind_eq_ok hrest
  obtain ⟨hgrown, hexit⟩ := whileM_invariant (P := Grown effective requested)
    (fun s s' hs hstep => hs.trans (closeRequires_eq_some hstep).choose_spec.2.grown.1)
    (.refl requested) hloop
  obtain ⟨_, hharness, hrest⟩ := bind_eq_ok hrest
  obtain ⟨_, hcheck, hrest⟩ := bind_eq_ok hrest
  obtain ⟨layers, hlayers, hrest⟩ := bind_eq_ok hrest
  obtain rfl := Except.ok.inj hrest
  replace hbased := hbased.grown hgrown
  have htier : ∀ layer ∈ selected.values, ∀ p ∈ selected.values, Needs layer p →
      p.tier.rank ≤ layer.tier.rank := fun layer hl p hp hneeds =>
    tier_le_of_needs (refusing_eq_ok.mp hcheck) hl hp hneeds
  obtain ⟨more, hmore, hmem, honce, horder⟩ := appendTiers_eq_ok hbased htier (by decide) hlayers
  subst hmore
  refine ⟨selected, hbased, fun capability hc => (hruntime capability hc).grown hgrown,
    fun need hn => (hplain need hn).grown hgrown, missing_eq_none (closeRequires_eq_none hexit),
    forM_eq_ok hharness, fun layer => ?_, honce, horder⟩
  rw [hmem]
  cases layer.tier <;> simp [tiers]

theorem Resolves.provided (h : Resolves request selected layers) (hp : Provided need selected) :
    ∃ layer ∈ layers, provides layer need = true := by
  obtain ⟨layer, hl, hp⟩ := hp
  exact ⟨layer, (h.all layer).mpr hl, hp⟩

/-- What resolution returns is a composition of the request. -/
theorem composed_of_resolveImage {library : Library} {catalogue : List ImageLayerSpec}
    {resolved : ResolvedImage}
    (hresolve : resolveImage library fuel catalogue request = .ok resolved) :
    Composed request resolved.layers := by
  obtain ⟨selected, h⟩ := resolves_of_resolveImage hresolve
  constructor
  case base => exact exists_base_first h.based h.all h.once h.order
  case once =>
    refine (List.nodup_map_iff_inj_on h.once).mpr fun a ha b hb => ?_
    exact h.based.name_injective a ((h.all a).mp ha) b ((h.all b).mp hb)
  case needs =>
    intro need hneed hharness
    refine h.provided (h.plain need ?_)
    rw [ImageRequest.plainNeeds, List.mem_filter, hharness]
    exact ⟨ExtTreeSet.mem_toList.mpr hneed, rfl⟩
  case utilities =>
    refine h.provided (h.runtime _ ?_)
    exact List.mem_append_right _ (List.mem_singleton_self _)
  case requires =>
    intro layer hl need hneed
    exact h.provided (h.closed layer ((h.all layer).mp hl) need hneed)
  case order =>
    intro before layer after hsplit provider hp hneeds
    have horder := h.order
    rw [hsplit] at horder hp
    exact mem_before_of_needs horder hp hneeds

/-- **Resolution ends, and what it returns is a composition of the request.** -/
theorem resolveImage_composes (library : Library) (catalogue : List ImageLayerSpec)
    (request : ImageRequest) :
    (Settles fun fuel => resolveImage library fuel catalogue request) ∧
      ∀ fuel resolved, resolveImage library fuel catalogue request = .ok resolved →
        Composed request resolved.layers :=
  ⟨resolveImage_settles library catalogue request, fun _ _ => composed_of_resolveImage⟩

/-- A library that sorts by insertion, accepts every definition and names an image by its
layers. -/
def plainLibrary : Library where
  sortBy cmp l := some (l.insertionSort fun a b => cmp a b ≠ .gt)
  validate _ := .ok ()
  imageIdentity layers := "-".intercalate (layers.map (·.name))

/-- Crew utilities that require a version of a shared layer. -/
def smallCatalogue : List ImageLayerSpec :=
  [{ name := "crew-utilities", version := "1", tier := .agentRuntime, source := .stdlib
     provides := .ofList ["crew:utilities"] compare,
     requires := .ofList ["lang:node>=20"] compare },
   { name := "node", version := "22.1", tier := .shared, source := .stdlib
     provides := .ofList ["lang:node@22.1"] compare },
   { name := "ubuntu", version := "24.04", tier := .base, source := .stdlib }]

theorem smallCatalogue_composes :
    ∃ resolved, resolveImage plainLibrary 2 smallCatalogue { project := "p" } = .ok resolved ∧
      resolved.layers.map (·.name) = ["ubuntu", "node", "crew-utilities"] ∧
        Composed { project := "p" } resolved.layers := by
  have hrun : ((resolveImage plainLibrary 2 smallCatalogue { project := "p" }).toOption.map
      fun resolved => resolved.layers.map (·.name)) =
      some ["ubuntu", "node", "crew-utilities"] := by
    decide +kernel
  obtain ⟨resolved, hresolved, hnames⟩ := exists_ok hrun
  exact ⟨resolved, hresolved, hnames,
    (resolveImage_composes plainLibrary smallCatalogue { project := "p" }).2 2 resolved hresolved⟩

end Flotilla.Image
