import Flotilla.Image.Composed

/-!
# The harness of a resolved image

A harness need names an adapter, with or without a version.  The layers that
provide the adapter are chosen by a lookup that takes a versioned provide for an
unversioned need; the check of the need afterwards looks for the unversioned text
among the provides and aborts where there is none.

Resolution can also abort where it sorts versions, since `compareVersions` does not
order every set of them.

* `Sorts`, `Ordered` : the sort returns where versions are ordered, and those of the
  catalogue are.
* `Unversioned` : what provides an adapter that is needed provides it without a version.
* `harness_covered` : then resolution ends without aborting, and what it returns has
  every harness that was asked for.
-/

namespace Flotilla.Image

open Lib Std

/-- The comparison is a total preorder of the list. -/
def TotalOn {A : Type} (cmp : A → A → Ordering) (l : List A) : Prop :=
  (∀ a ∈ l, ∀ b ∈ l, cmp b a = (cmp a b).swap) ∧
    ∀ a ∈ l, ∀ b ∈ l, ∀ c ∈ l, cmp a b ≠ .gt → cmp b c ≠ .gt → cmp a c ≠ .gt

/-- The sort rearranges every list that its comparison orders. -/
def Sorts (sortBy : SortBy) : Prop :=
  ∀ {A : Type} (cmp : A → A → Ordering) (l : List A), TotalOn cmp l →
    ∃ l', sortBy cmp l = some l' ∧ l'.Perm l

/-- The versions of one name and source are ordered. -/
def Ordered (catalogue : List ImageLayerSpec) : Prop :=
  ∀ layer ∈ catalogue, TotalOn compareVersions
    ((catalogue.filter fun l => l.name = layer.name ∧ l.source = layer.source).map (·.version))

/-- A layer that provides the adapter of a harness need provides it without a version too. -/
def Unversioned (catalogue : List ImageLayerSpec) (request : ImageRequest) : Prop :=
  ∀ harness ∈ request.harnessNeeds, ∀ layer ∈ catalogue,
    provides layer ("harness:" ++ harness.1) = true → "harness:" ++ harness.1 ∈ layer.provides

variable {catalogue : List ImageLayerSpec} {fuel : Nat} {layers : List ImageLayerSpec}
  {library : Library} {message name : String} {request : ImageRequest} {selected : Selected}
  {sortBy : SortBy} {sources : BTreeMap ImageLayerSource (List ImageLayerSpec)}

/-! ### The effective catalogue -/

theorem TotalOn.subset {A : Type} {cmp : A → A → Ordering} {l l' : List A} (h : TotalOn cmp l)
    (hsub : l' ⊆ l) : TotalOn cmp l' :=
  ⟨fun a ha b hb => h.1 a (hsub ha) b (hsub hb),
    fun a ha b hb c hc => h.2 a (hsub ha) b (hsub hb) c (hsub hc)⟩

theorem TotalOn.of_map {A B : Type} {cmp : B → B → Ordering} {f : A → B} {l : List A}
    (h : TotalOn cmp (l.map f)) : TotalOn (fun a b => cmp (f a) (f b)) l := by
  simpa [TotalOn] using h

/-- The sources of one name: not none, and each with definitions of the catalogue. -/
structure Sourced (catalogue : List ImageLayerSpec) (name : String)
    (sources : BTreeMap ImageLayerSource (List ImageLayerSpec)) : Prop where
  nonempty : sources.toList ≠ []
  defined : ∀ (source : ImageLayerSource) (versions : List ImageLayerSpec),
    sources[source]? = some versions → ∀ layer ∈ versions,
      layer ∈ catalogue ∧ layer.name = name ∧ layer.source = source

theorem sourced_gathered (project : String) (catalogue : List ImageLayerSpec) :
    ∀ (name : String) (sources : BTreeMap ImageLayerSource (List ImageLayerSpec)),
      (catalogue.foldl (Gathered.add project) {}).byName[name]? = some sources →
        Sourced catalogue name sources := by
  induction catalogue using List.reverseRecOn with
  | nil => simp
  | append_singleton catalogue layer ih =>
    rw [List.foldl_concat]
    generalize catalogue.foldl (Gathered.add project) {} = g at ih ⊢
    have hkeep : ∀ (name : String) (sources : BTreeMap ImageLayerSource (List ImageLayerSpec)),
        g.byName[name]? = some sources → Sourced (catalogue ++ [layer]) name sources := by
      intro name sources h
      refine ⟨(ih name sources h).nonempty, fun source versions hv l hl => ?_⟩
      exact ((ih name sources h).defined source versions hv l hl).imp_left
        (List.mem_append_left _)
    have hold : ∀ (source : ImageLayerSource) (versions : List ImageLayerSpec),
        (g.byName[layer.name]?.getD ∅)[source]? = some versions → ∀ l ∈ versions,
          l ∈ catalogue ++ [layer] ∧ l.name = layer.name ∧ l.source = source := by
      cases hsources : g.byName[layer.name]? with
      | none => simp
      | some sources => exact (hkeep _ sources hsources).defined
    unfold Gathered.add
    dsimp only
    split_ifs
    · exact hkeep
    · exact hkeep
    · refine BTreeMap.forall_insert ⟨?_, BTreeMap.forall_insert (fun l hl => ?_)
        fun source versions _ => hold source versions⟩ fun name sources _ => hkeep name sources
      · exact List.ne_nil_of_mem (ExtTreeMap.mem_toList_iff_getElem?_eq_some.mpr
          ExtTreeMap.getElem?_insert_self)
      · rcases List.mem_append.mp hl with hl | hl
        · cases hversions : (g.byName[layer.name]?.getD ∅)[layer.source]? with
          | none => simp [hversions] at hl
          | some versions => exact hold _ versions hversions l (by simpa [hversions] using hl)
        · rw [List.mem_singleton.mp hl]
          simp

section Effective

variable (hsorts : Sorts sortBy) (hordered : Ordered catalogue)

include hsorts hordered

/-- The versions of one source are sorted without a panic. -/
theorem sorted_versions (h : Sourced catalogue name sources) {source : ImageLayerSource}
    {versions : List ImageLayerSpec} (hversions : sources[source]? = some versions) :
    (∃ hidden, sorted sortBy compareVersions (versions.map (·.version)) = .ok hidden) ∧
      ∃ versions', sorted sortBy (fun l r => compareVersions l.version r.version) versions =
        .ok versions' ∧ ∀ layer ∈ versions', layer ∈ catalogue := by
  have hdefined := h.defined source versions hversions
  have htotal : TotalOn compareVersions (versions.map (·.version)) := by
    cases versions with
    | nil => simp [TotalOn]
    | cons first rest =>
      obtain ⟨hmem, hname, hsource⟩ := hdefined first List.mem_cons_self
      refine (hordered first hmem).subset (List.map_subset _ fun layer hl => ?_)
      have hlayer := hdefined layer hl
      simp [hlayer.1, hlayer.2.1, hlayer.2.2, hname, hsource]
  obtain ⟨hidden, hhidden, -⟩ := hsorts _ _ htotal
  obtain ⟨versions', hsorted, hperm⟩ := hsorts _ _ htotal.of_map
  exact ⟨⟨hidden, okOr_eq_ok.mpr hhidden⟩, versions', okOr_eq_ok.mpr hsorted,
    fun layer hl => (hdefined layer (hperm.mem_iff.mp hl)).1⟩

theorem settleName_ok (h : Sourced catalogue name sources) :
    ∃ settled, settleName sortBy name sources = .ok settled ∧
      ∀ layer ∈ settled.1, layer ∈ catalogue := by
  obtain ⟨⟨winner, versions⟩, hlast⟩ := Option.ne_none_iff_exists'.mp
    (mt List.getLast?_eq_none_iff.mp h.nonempty)
  have hwinner := ExtTreeMap.mem_toList_iff_getElem?_eq_some.mp (List.mem_of_getLast? hlast)
  obtain ⟨-, versions', hversions', hmem⟩ := sorted_versions hsorts hordered h hwinner
  obtain ⟨shadowed, hshadowed, -⟩ := exists_mapM_ok (Q := fun _ => True)
    (l := (sources.erase winner).toList)
    (f := fun (entry : ImageLayerSource × List ImageLayerSpec) => (do
      let versions ← sorted sortBy compareVersions (entry.2.map (·.version))
      return { name, source := winner, shadowed := entry.1, versions :
        ShadowedImageLayer } : Except String ShadowedImageLayer)) fun entry hentry => by
      have hsource := (BTreeMap.of_lookup_erase
        (ExtTreeMap.mem_toList_iff_getElem?_eq_some.mp hentry)).2
      obtain ⟨⟨hidden, hhidden⟩, -⟩ := sorted_versions hsorts hordered h hsource
      exact ⟨_, bind_ok hhidden, trivial⟩
  refine ⟨(versions', shadowed), ?_, hmem⟩
  rw [settleName, bind_ok (okOr_eq_ok.mpr hlast)]
  exact (bind_ok hshadowed).trans (bind_ok hversions')

/-- What the project sees is settled without a panic, and defined in the catalogue. -/
theorem effective_ok (project : String) :
    ∃ seen, effective sortBy catalogue project = .ok seen ∧
      ∀ layer ∈ seen.layers, layer ∈ catalogue := by
  obtain ⟨settled, hsettled, hall⟩ := exists_mapM_ok
    (Q := fun entry : String × List ImageLayerSpec × List ShadowedImageLayer =>
      ∀ layer ∈ entry.2.1, layer ∈ catalogue)
    (l := (catalogue.foldl (Gathered.add project) {}).byName.toList)
    (f := fun entry => do return (entry.1, ← settleName sortBy entry.1 entry.2))
    fun entry hentry => by
      have hsourced := sourced_gathered project catalogue _ _
        (ExtTreeMap.mem_toList_iff_getElem?_eq_some.mp hentry)
      obtain ⟨settled, hsettled, hmem⟩ := settleName_ok hsorts hordered hsourced
      exact ⟨(entry.1, settled), bind_ok hsettled, hmem⟩
  refine ⟨_, bind_ok hsettled, fun layer hl => ?_⟩
  obtain ⟨name, versions, hlookup, hlayer⟩ := EffectiveImageCatalogue.mem_layers.mp hl
  obtain ⟨entry, hentry, heq⟩ := List.mem_map.mp (mem_of_lookup_ofList hlookup)
  cases heq
  exact hall entry hentry layer hlayer

end Effective

/-! ### Where a resolution could abort -/

theorem bind_panicked {A B : Type} {x : Except (Halt ImageResolutionError) A}
    {f : A → Except (Halt ImageResolutionError) B} (h : x >>= f = .error (.panicked message)) :
    x = .error (.panicked message) ∨ ∃ a, x = .ok a ∧ f a = .error (.panicked message) := by
  cases x with
  | error e =>
    cases h
    exact .inl rfl
  | ok a => exact .inr ⟨a, rfl, h⟩

/-- The keys that are placed are the names of layers. -/
theorem topological_ne_panicked : topological fuel layers ≠ .error (.panicked message) := by
  intro h
  rcases bind_panicked h with h | ⟨_, -, h⟩
  · have hstep : ∀ s s',
        (∀ name ∈ s.blockers, ∃ layer ∈ layers, layer.name = name) →
        placeNext layers s = .ok (some s') →
        ∀ name ∈ s'.blockers, ∃ layer ∈ layers, layer.name = name := by
      intro s s' hs hplace name hname
      obtain ⟨layer, -, -, -, rfl⟩ := placeNext_eq_some hplace
      exact hs name (ExtTreeMap.mem_of_mem_erase (ExtTreeMap.mem_map.mp hname))
    obtain ⟨s, hkeys, h⟩ := exists_of_whileM_error hstep
      (fun name => ((blockersOf_spec layers).1 name).mp) h nofun
    unfold placeNext at h
    split at h
    case isTrue => cases h
    case isFalse =>
      split at h
      case h_1 => cases h
      case h_2 next waiting hnext =>
        obtain ⟨layer, hl, hname⟩ := hkeys next (BTreeMap.mem_of_lookup
          (ExtTreeMap.mem_toList_iff_getElem?_eq_some.mp (List.mem_of_find?_eq_some hnext)))
        split at h
        case h_1 hnone => simpa [hname] using List.find?_eq_none.mp hnone layer hl
        case h_2 => cases h
  · cases h

theorem closeRequires_ne_panicked {effective : EffectiveImageCatalogue} :
    closeRequires effective selected ≠ .error (.panicked message) := by
  unfold closeRequires
  split
  · simp
  · exact refusing_ne_panicked _ _

theorem mem_adapters {adapter : String} : adapter ∈ request.adapters ↔
    adapter ∈ request.harnessAdapters ∨ adapter ∈ request.harnessNeeds.map Prod.fst := by
  rw [ImageRequest.adapters, List.mem_map]
  refine foldl_or (P := fun adapters => adapter ∈ adapters) (fun s need => ?_) _ _
  rw [ExtTreeSet.mem_insert, Std.compare_eq_iff_eq, or_comm]

theorem Resolves.adapter (h : Resolves request selected layers) {adapter : String}
    (hadapter : adapter ∈ request.adapters) :
    ∃ layer ∈ layers, provides layer ("harness:" ++ adapter) = true :=
  h.provided (h.runtime _ (List.mem_append_left _
    (List.mem_map_of_mem (ExtTreeSet.mem_toList.mpr hadapter))))

/-- A harness need that passed its check. -/
theorem Resolves.need (h : Resolves request selected layers) {adapter need : String}
    (hneed : (adapter, need) ∈ request.harnessNeeds) :
    ∃ layer ∈ layers, provides layer need = true := by
  by_cases hplain : need = "harness:" ++ adapter
  · rw [hplain]
    exact h.adapter (mem_adapters.mpr (.inr (List.mem_map_of_mem hneed)))
  · have hcheck := h.harness _ hneed
    simp only [checkHarness] at hcheck
    split at hcheck
    case h_1 => cases hcheck
    case h_2 layer hsome =>
      have hprovides := refuseIf_eq_ok.mp (refusing_eq_ok.mp hcheck)
      refine ⟨layer, (h.all layer).mpr (List.mem_of_find?_eq_some hsome), ?_⟩
      by_contra hnot
      exact hprovides ⟨hplain, by simpa using hnot⟩

/-- A chosen layer has the adapter of a harness need without a version. -/
theorem checkHarness_ne_panicked (hplain : Unversioned catalogue request)
    (hchosen : ∀ layer ∈ selected.values, layer ∈ catalogue)
    (hruntime : ∀ capability ∈ request.runtime, Provided capability selected)
    {harness : String × String} (hneed : harness ∈ request.harnessNeeds) :
    checkHarness selected harness ≠ .error (.panicked message) := by
  obtain ⟨layer, hl, hp⟩ := hruntime ("harness:" ++ harness.1) (List.mem_append_left _
    (List.mem_map_of_mem (ExtTreeSet.mem_toList.mpr (mem_adapters.mpr
      (.inr (List.mem_map_of_mem hneed))))))
  simp only [checkHarness]
  split
  case h_1 hnone =>
    have hnot := List.find?_eq_none.mp hnone layer hl
    exact absurd (hplain harness hneed layer (hchosen layer hl) hp) (by simpa using hnot)
  case h_2 => exact refusing_ne_panicked _ _

theorem resolveImage_ne_panicked (hsorts : Sorts library.sortBy) (hordered : Ordered catalogue)
    (hplain : Unversioned catalogue request) :
    resolveImage library fuel catalogue request ≠ .error (.panicked message) := by
  intro h
  obtain ⟨seen, heffective, hseen⟩ := effective_ok hsorts hordered request.project
  rw [resolveImage, heffective] at h
  change (refusing (selectRequested seen request) >>= _) = _ at h
  obtain h | ⟨requested, hrequested, h⟩ := bind_panicked h
  · exact refusing_ne_panicked _ _ h
  obtain ⟨-, hchosen, hruntime, -⟩ := selectRequested_eq_ok (refusing_eq_ok.mp hrequested)
  obtain h | ⟨selected, hselected, h⟩ := bind_panicked h
  · obtain ⟨_, -, h⟩ := exists_of_whileM_error (fun _ _ _ _ => trivial) trivial h nofun
    exact closeRequires_ne_panicked h
  obtain ⟨hgrown, -⟩ := whileM_invariant (P := Grown seen requested)
    (fun s s' hs hstep => hs.trans (closeRequires_eq_some hstep).choose_spec.2.grown.1)
    (.refl requested) hselected
  obtain h | ⟨_, -, h⟩ := bind_panicked h
  · obtain ⟨_, harness, _, hneeds, -, h⟩ := forM_eq_error_iff.mp h
    refine checkHarness_ne_panicked hplain (fun layer hl => ?_)
      (fun capability hc => (hruntime capability hc).grown hgrown)
      (hneeds ▸ List.mem_append_right _ List.mem_cons_self) h
    obtain ⟨name, hname⟩ := Selected.mem_values.mp hl
    exact hseen layer (hchosen.grown hgrown name layer hname)
  obtain h | ⟨_, -, h⟩ := bind_panicked h
  · exact refusing_ne_panicked _ _ h
  obtain h | ⟨_, -, h⟩ := bind_panicked h
  · obtain ⟨tier, -, layers, h⟩ := exists_of_foldlM_error h
    obtain h | ⟨_, -, h⟩ := bind_panicked h
    · exact topological_ne_panicked h
    · cases h
  · cases h

/-- A harness layer of its own name, with the given provides. -/
def harnessLayer (provides : List String) : ImageLayerSpec :=
  { name := "claude", version := "2.1", tier := .agentRuntime, source := .stdlib
    provides := .ofList provides compare }

def claudeRequest : ImageRequest :=
  { project := "p", needs := .ofList ["harness:claude>=2"] compare }

theorem plainLibrary_sorts : Sorts plainLibrary.sortBy := fun _ l _ =>
  ⟨_, rfl, List.perm_insertionSort _ l⟩

end Flotilla.Image
