import Flotilla.Lib.BTreeMap

/-!
# Loops over lists and maps

Facts about the loops that translated code is made of: a loop that may fail,
sorting a list before or after selecting from it, and selecting one key from the
entries of a map.

* `bind_eq_ok`, `exists_ok`, `mapM_eq_ok`, `mapM_ok`,
  `mapM_error_congr` : a computation that may fail, taken apart.
* `filterMap_insertionSort` : selecting from a sorted list is sorting the
  selection, when the selection keeps the sort key.
* `filterMap_toList_key` : the entries of a map with a given key.
* `lookup_foldl_insert` : a loop that puts one value at some keys.
* `view_foldl_other`, `view_foldl_key` : a loop whose every step touches one key
  acts on each key by its own item alone.
-/

namespace Flotilla.Lib

open Std (ExtTreeMap)

/-! ### Computations that may fail -/

section Fail

variable {E A B : Type} {a : A} {b : B} {e : E} {f : A → Except E B} {l : List A} {x : Except E A}

theorem bind_ok (h : x = .ok a) : (x >>= f) = f a := by
  rw [h]
  rfl

theorem bind_eq_ok (h : (x >>= f) = .ok b) : ∃ a, x = .ok a ∧ f a = .ok b := by
  cases x with
  | error e => cases h
  | ok a => exact ⟨a, rfl, h⟩

def refuseIf (p : Prop) [Decidable p] (e : E) : Except E Unit := if p then .error e else .ok ()

theorem refuseIf_eq_ok {p : Prop} [Decidable p] {u : Unit} : refuseIf p e = .ok u ↔ ¬ p := by
  by_cases hp : p <;> simp [refuseIf, hp]

theorem of_refuseIf {p : Prop} [Decidable p] {f : Unit → Except E B}
    (h : (refuseIf p e >>= f) = .ok b) : ¬ p ∧ f () = .ok b := by
  obtain ⟨⟨⟩, hp, h⟩ := bind_eq_ok h
  exact ⟨refuseIf_eq_ok.mp hp, h⟩

theorem refuseIf_bind {p : Prop} [Decidable p] {f : Unit → Except E B} (h : ¬ p) :
    (refuseIf p e >>= f) = f () :=
  bind_ok (refuseIf_eq_ok.mpr h)

/-- A condition whose one branch does not give the value. -/
theorem of_ite_else {p : Prop} [Decidable p] {x y z : A} (h : (if p then x else y) = z)
    (hx : x ≠ z) : ¬ p ∧ y = z :=
  (ite_eq_iff.mp h).resolve_left fun hp => hx hp.2

theorem of_ite_then {p : Prop} [Decidable p] {x y z : A} (h : (if p then x else y) = z)
    (hy : y ≠ z) : p ∧ x = z :=
  (ite_eq_iff.mp h).resolve_right fun hp => hy hp.2

def okOr (x : Option A) (e : E) : Except E A :=
  match x with
  | some a => .ok a
  | none => .error e

theorem okOr_eq_ok {x : Option A} : okOr x e = .ok a ↔ x = some a := by
  cases x <;> simp [okOr]

theorem mapError_eq_ok {E' : Type} {f : E → E'} (h : x.mapError f = .ok a) : x = .ok a := by
  cases x with
  | error e => cases h
  | ok b =>
    cases h
    rfl

theorem exists_ok {f : A → B} (h : x.toOption.map f = some b) : ∃ a, x = .ok a ∧ f a = b := by
  cases x with
  | error e => cases h
  | ok a => exact ⟨a, rfl, Option.some.inj h⟩

theorem mapM_ok {g : A → B} (h : ∀ a ∈ l, f a = .ok (g a)) : l.mapM f = .ok (l.map g) := by
  induction l with
  | nil => rfl
  | cons a l ih =>
    rw [List.mapM_cons, h a (by simp), ih fun b hb => h b (by simp [hb])]
    rfl

theorem exists_mapM_ok {Q : B → Prop} (h : ∀ a ∈ l, ∃ b, f a = .ok b ∧ Q b) :
    ∃ bs, l.mapM f = .ok bs ∧ ∀ b ∈ bs, Q b := by
  induction l with
  | nil => exact ⟨[], rfl, by simp⟩
  | cons a l ih =>
    obtain ⟨b, hb, hQ⟩ := h a List.mem_cons_self
    obtain ⟨bs, hbs, hall⟩ := ih fun a ha => h a (List.mem_cons_of_mem _ ha)
    refine ⟨b :: bs, ?_, List.forall_mem_cons.mpr ⟨hQ, hall⟩⟩
    rw [List.mapM_cons, hb, hbs]
    rfl

theorem mapM_eq_ok {bs : List B} (h : l.mapM f = .ok bs) : ∀ a ∈ l, ∃ b, f a = .ok b := by
  induction l generalizing bs with
  | nil => intro a ha; exact absurd ha List.not_mem_nil
  | cons x l ih =>
    rw [List.mapM_cons] at h
    obtain ⟨y, hy, h⟩ := bind_eq_ok h
    obtain ⟨ys, hys, -⟩ := bind_eq_ok h
    exact List.forall_mem_cons.mpr ⟨⟨y, hy⟩, ih hys⟩

/-- A loop that stops with an error stops at one of its elements. -/
theorem exists_of_foldlM_error {f : B → A → Except E B} (h : l.foldlM f b = .error e) :
    ∃ a ∈ l, ∃ b', f b' a = .error e := by
  induction l generalizing b with
  | nil => cases h
  | cons a l ih =>
    rw [List.foldlM_cons] at h
    cases ha : f b a with
    | error e' =>
      rw [ha] at h
      cases h
      exact ⟨a, List.mem_cons_self, b, ha⟩
    | ok b' =>
      rw [bind_ok ha] at h
      obtain ⟨a', hmem, b'', herror⟩ := ih h
      exact ⟨a', List.mem_cons_of_mem a hmem, b'', herror⟩

/-- A loop over items that fail alike fails alike. -/
theorem mapM_error_congr {K : Type} {key : A → K}
    (h : ∀ a a', key a = key a' → ∀ e, f a = .error e → f a' = .error e) {l l' : List A}
    (hl : l.map key = l'.map key) (hf : l.mapM f = .error e) : l'.mapM f = .error e := by
  induction l generalizing l' with
  | nil => cases hf
  | cons x l ih =>
    cases l' with
    | nil => cases hl
    | cons x' l' =>
      obtain ⟨hx, hl⟩ := List.cons.inj hl
      rw [List.mapM_cons] at hf ⊢
      cases hfx : f x with
      | error e' =>
        rw [hfx] at hf
        cases hf
        rw [h x x' hx _ hfx]
        rfl
      | ok y =>
        cases hfx' : f x' with
        | error e' =>
          rw [h x' x hx.symm _ hfx'] at hfx
          cases hfx
        | ok y' =>
          cases hfl : l.mapM f with
          | ok ys =>
            rw [hfx, hfl] at hf
            cases hf
          | error e' =>
            rw [hfx, hfl] at hf
            cases hf
            rw [ih hl hfl]
            rfl

end Fail

/-! ### Sorting and selecting -/

section Sorting

variable {A B K : Type} [LinearOrder K] {keyA : A → K} {keyB : B → K} {f : A → Option B}

theorem orderedInsert_of_le {b : B} {l : List B} (h : ∀ y ∈ l, keyB b ≤ keyB y) :
    l.orderedInsert (fun x y => keyB x ≤ keyB y) b = b :: l := by
  cases l with
  | nil => rfl
  | cons y l => rw [List.orderedInsert_cons, if_pos (h y (by simp))]

theorem filterMap_orderedInsert (hkey : ∀ a b, f a = some b → keyB b = keyA a) (a : A) {l : List A}
    (hl : l.Pairwise fun x y => keyA x ≤ keyA y) :
    (l.orderedInsert (fun x y => keyA x ≤ keyA y) a).filterMap f =
      match f a with
      | none => l.filterMap f
      | some b => (l.filterMap f).orderedInsert (fun x y => keyB x ≤ keyB y) b := by
  induction l with
  | nil => cases hf : f a <;> simp [hf]
  | cons x l ih =>
    obtain ⟨hx, hl⟩ := List.pairwise_cons.mp hl
    rw [List.orderedInsert_cons]
    by_cases hax : keyA a ≤ keyA x
    · rw [if_pos hax]
      cases hf : f a with
      | none => simp [hf]
      | some b =>
        -- Everything selected from the rest has a key of at least `a`'s.
        have hle : ∀ y ∈ (x :: l).filterMap f, keyB b ≤ keyB y := by
          intro y hy
          obtain ⟨z, hz, hzy⟩ := List.mem_filterMap.mp hy
          rw [hkey a b hf, hkey z y hzy]
          rcases List.mem_cons.mp hz with rfl | hz
          · exact hax
          · exact le_trans hax (hx z hz)
        simp only [List.filterMap_cons_some hf, orderedInsert_of_le hle]
    · rw [if_neg hax]
      cases hfx : f x with
      | none => simpa [hfx] using ih hl
      | some y =>
        rw [List.filterMap_cons_some hfx, ih hl, List.filterMap_cons_some hfx]
        cases hf : f a with
        | none => rfl
        | some b =>
          have hby : ¬ keyB b ≤ keyB y := by
            rw [hkey a b hf, hkey x y hfx]
            exact hax
          simp only [List.orderedInsert_cons, if_neg hby]

/-- **Selecting commutes with sorting.** -/
theorem filterMap_insertionSort (keyA : A → K) (keyB : B → K) (f : A → Option B)
    (hkey : ∀ a b, f a = some b → keyB b = keyA a) (l : List A) :
    (l.insertionSort fun x y => keyA x ≤ keyA y).filterMap f =
      (l.filterMap f).insertionSort fun x y => keyB x ≤ keyB y := by
  induction l with
  | nil => rfl
  | cons a l ih =>
    rw [List.insertionSort_cons, filterMap_orderedInsert hkey a, ih]
    · cases hf : f a <;> simp [hf]
    · have : IsTrans A fun x y => keyA x ≤ keyA y := ⟨fun _ _ _ => le_trans⟩
      exact List.pairwise_insertionSort _ l

/-- Lists with the same elements and pairwise different keys sort to the same list. -/
theorem insertionSort_eq_of_perm (keyA : A → K) {l l' : List A} (h : l.Perm l')
    (hnodup : (l.map keyA).Nodup) :
    (l.insertionSort fun x y => keyA x ≤ keyA y) =
      l'.insertionSort fun x y => keyA x ≤ keyA y := by
  refine @List.Perm.eq_of_pairwise _ (fun x y => keyA x ≤ keyA y) _ _ ?_
    (List.pairwise_insertionSort _ l) (List.pairwise_insertionSort _ l') ?_
  · intro a b ha hb hab hba
    have ha' : a ∈ l := (List.mem_insertionSort _).mp ha
    have hb' : b ∈ l := h.mem_iff.mpr ((List.mem_insertionSort _).mp hb)
    exact List.inj_on_of_nodup_map hnodup ha' hb' (le_antisymm hab hba)
  · exact (List.perm_insertionSort _ l).trans (h.trans (List.perm_insertionSort _ l').symm)

/-- **Sorting is stable**: what the relation does not tell apart stays in its order. -/
theorem pairwise_insertionSort_stable {r s : A → A → Prop} [DecidableRel r] [Std.Total r]
    [IsTrans A r] {l : List A} (h : l.Pairwise s) :
    (l.insertionSort r).Pairwise fun a b => r a b ∧ (r b a → s a b) := by
  induction h with
  | nil => exact .nil
  | @cons a l ha _ ih =>
    rw [List.insertionSort_cons]
    have hall : ∀ b ∈ l.insertionSort r, s a b := fun b hb =>
      ha b ((List.mem_insertionSort r).mp hb)
    generalize l.insertionSort r = sorted at ih hall
    induction ih with
    | nil => exact List.pairwise_singleton _ a
    | @cons b rest hb hrest ih =>
      by_cases hab : r a b
      · rw [List.orderedInsert_cons_of_le r rest hab]
        refine .cons (fun x hx => ⟨?_, fun _ => hall x hx⟩) (.cons hb hrest)
        rcases List.mem_cons.mp hx with rfl | hx
        · exact hab
        · exact IsTrans.trans a b x hab (hb x hx).1
      · rw [List.orderedInsert_of_not_le r rest hab]
        refine .cons (fun x hx => ?_) (ih fun x hx => hall x (List.mem_cons_of_mem b hx))
        rcases List.mem_orderedInsert r |>.mp hx with rfl | hx
        · exact ⟨(Std.Total.total b x).resolve_right hab, fun h => absurd h hab⟩
        · exact hb x hx

end Sorting

/-! ### The entries of a map -/

section Entries

variable {K V W : Type} [Ord K] [Std.TransOrd K] [Std.LawfulEqOrd K] [DecidableEq K]
  (m : BTreeMap K V)

omit [DecidableEq K] in
theorem nodup_keys_toList : (m.toList.map Prod.fst).Nodup := by
  rw [List.Nodup, List.pairwise_map]
  refine ExtTreeMap.distinct_keys_toList.imp ?_
  intro a b hab heq
  exact hab (Std.compare_eq_iff_eq.mpr heq)

/-- The entry of a key is the one that a search finds. -/
theorem find?_toList (k : K) : (m.toList.find? fun entry => entry.1 = k).map Prod.snd = m[k]? := by
  cases hm : m[k]? with
  | none =>
    rw [Option.map_eq_none_iff, List.find?_eq_none]
    rintro ⟨k', v⟩ hentry
    simp only [decide_eq_true_eq]
    rintro rfl
    simp [hm] at hentry
  | some v =>
    have hentry := ExtTreeMap.mem_toList_iff_getElem?_eq_some.mpr hm
    cases hf : m.toList.find? fun entry => entry.1 = k with
    | none => simpa using List.find?_eq_none.mp hf _ hentry
    | some entry =>
      obtain ⟨hv, rfl⟩ := of_find? hf
      rw [ExtTreeMap.mem_toList_iff_getElem?_eq_some] at hv
      rw [hm] at hv
      exact hv.symm

theorem filterMap_toList_key (k : K) (g : V → W) :
    (m.toList.filterMap fun entry => if entry.1 = k then some (g entry.2) else none) =
      (m[k]?.map g).toList := by
  have hlist : ∀ l : List (K × V), l.Pairwise (fun a b => a.1 ≠ b.1) →
      (l.filterMap fun entry => if entry.1 = k then some (g entry.2) else none) =
        ((l.find? fun entry => entry.1 = k).map fun entry => g entry.2).toList := by
    intro l hl
    induction l with
    | nil => rfl
    | cons entry l ih =>
      obtain ⟨hentry, hl⟩ := List.pairwise_cons.mp hl
      by_cases hk : entry.1 = k
      · have hnone : (l.filterMap fun e => if e.1 = k then some (g e.2) else none) = [] := by
          rw [List.filterMap_eq_nil_iff]
          intro e he
          exact if_neg fun hek => hentry e he (hk.trans hek.symm)
        simp [hk, hnone]
      · simp only [List.filterMap_cons, if_neg hk, ih hl]
        simp [hk]
  rw [hlist m.toList ?_, ← find?_toList]
  · cases m.toList.find? fun entry => entry.1 = k <;> rfl
  · exact List.pairwise_map.mp (nodup_keys_toList m)

omit [Std.LawfulEqOrd K] [DecidableEq K] in
theorem exists_mem_of_isEmpty {m : BTreeMap K V} (h : m.isEmpty = false) : ∃ k, k ∈ m := by
  by_contra hnone
  have hempty : m = ∅ :=
    ExtTreeMap.eq_empty_iff_forall_not_mem.mpr fun k hk => hnone ⟨k, hk⟩
  rw [ExtTreeMap.isEmpty_iff.mpr hempty] at h
  cases h

omit [DecidableEq K] in
/-- What a map holds is one of the entries it was filled with. -/
theorem mem_of_lookup_ofList {l : List (K × V)} {k : K} {v : V}
    (h : (ExtTreeMap.ofList l compare)[k]? = some v) : (k, v) ∈ l := by
  have hfill : ∀ (l : List (K × V)) (m : BTreeMap K V), (m.insertMany l)[k]? = some v →
      (k, v) ∈ l ∨ m[k]? = some v := by
    intro l
    induction l with
    | nil => exact fun m h => .inr (by simpa using h)
    | cons entry l ih =>
      intro m h
      rw [ExtTreeMap.insertMany_cons] at h
      rcases ih _ h with hmem | hlookup
      · exact .inl (List.mem_cons_of_mem entry hmem)
      · rcases BTreeMap.of_lookup_insert hlookup with ⟨rfl, rfl⟩ | ⟨-, hlookup⟩
        · exact .inl List.mem_cons_self
        · exact .inr hlookup
  rw [ExtTreeMap.ofList_eq_insertMany_empty] at h
  rcases hfill l ∅ h with hmem | hlookup
  · exact hmem
  · simp at hlookup

/-- A loop that puts one value at some keys. -/
theorem lookup_foldl_insert {A : Type} (l : List A) (m : BTreeMap K V) (key : A → K)
    (p : A → Bool) (v : V) (k : K) :
    (l.foldl (fun m a => if p a then m.insert (key a) v else m) m)[k]? =
      if ∃ a ∈ l, p a = true ∧ key a = k then some v else m[k]? := by
  induction l generalizing m with
  | nil => simp
  | cons a l ih =>
    have hstep : (if p a then m.insert (key a) v else m)[k]? =
        if p a = true ∧ key a = k then some v else m[k]? := by
      cases hp : p a <;> simp [ExtTreeMap.getElem?_insert]
    simp only [List.foldl_cons, ih, hstep, List.exists_mem_cons_iff]
    by_cases hl : ∃ a ∈ l, p a = true ∧ key a = k
    · rw [if_pos hl, if_pos (.inr hl)]
    · simp only [hl, or_false, if_false]

end Entries

/-! ### Loops that touch one key at a time -/

section Keyed

variable {St A K X : Type} {step : St → A → St} {key : A → K} {view : St → K → X} {f : A → X → X}
  {l : List A}

/-- A key that no item has is left alone. -/
theorem view_foldl_other (view : St → K → X)
    (hother : ∀ s a k, key a ≠ k → view (step s a) k = view s k) {k : K} (hl : ∀ a ∈ l, key a ≠ k)
    (s : St) : view (l.foldl step s) k = view s k := by
  induction l generalizing s with
  | nil => rfl
  | cons a l ih =>
    rw [List.foldl_cons, ih (fun b hb => hl b (List.mem_cons_of_mem a hb)),
      hother s a k (hl a List.mem_cons_self)]

/-- With distinct keys, the item of a key acts once, on what was there at the start. -/
theorem view_foldl_key (view : St → K → X)
    (hkey : ∀ s a, view (step s a) (key a) = f a (view s (key a)))
    (hother : ∀ s a k, key a ≠ k → view (step s a) k = view s k) (hl : (l.map key).Nodup) {a : A}
    (ha : a ∈ l) (s : St) : view (l.foldl step s) (key a) = f a (view s (key a)) := by
  induction l generalizing s with
  | nil => exact absurd ha List.not_mem_nil
  | cons b l ih =>
    obtain ⟨hb, hl⟩ := List.nodup_cons.mp hl
    rw [List.foldl_cons]
    rcases List.mem_cons.mp ha with rfl | ha
    · have hrest : ∀ c ∈ l, key c ≠ key a := by
        intro c hc heq
        exact hb (List.mem_map.mpr ⟨c, hc, heq⟩)
      rw [view_foldl_other view hother hrest, hkey]
    · have hne : key b ≠ key a := by
        intro heq
        exact hb (List.mem_map.mpr ⟨a, ha, heq.symm⟩)
      rw [ih hl ha, hother s b (key a) hne]

/-- With distinct keys, an invariant that a step keeps where its key is as it should be holds
after the loop, when all keys are so at the start. -/
theorem foldl_guarded (step : St → A → St) (key : A → K) (view : St → K → X) {P : St → Prop}
    {G : X → Prop} (hstep : ∀ s a, P s → G (view s (key a)) → P (step s a))
    (hother : ∀ s a k, key a ≠ k → view (step s a) k = view s k) (hl : (l.map key).Nodup) {s : St}
    (hguard : ∀ a ∈ l, G (view s (key a))) (hs : P s) : P (l.foldl step s) := by
  induction l generalizing s with
  | nil => exact hs
  | cons b l ih =>
    obtain ⟨hb, hl⟩ := List.nodup_cons.mp hl
    refine ih hl ?_ (hstep s b hs (hguard b List.mem_cons_self))
    intro a ha
    have hne : key b ≠ key a := by
      intro heq
      exact hb (List.mem_map.mpr ⟨a, ha, heq.symm⟩)
    rw [hother s b (key a) hne]
    exact hguard a (List.mem_cons_of_mem b ha)

end Keyed

end Flotilla.Lib
