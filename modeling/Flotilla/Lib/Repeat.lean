import Flotilla.Lib.FirstMatch
import Flotilla.Lib.BTreeMap

/-!
# Doing the same thing twice

When a change may be repeated, the second time has to find nothing left to do.
These are the rules by which that is seen, for a change of one entry of a map,
for a change of one element of a list and for a whole loop of changes.

* `Idem` : a change that finds nothing left to do.
* `BTreeMap.modify_eq_self`, `alter_eq_self`, `map_eq_self` : a change that finds
  nothing to do.
* `BTreeMap.modify_idem`, `alter_idem`, `map_idem` : a change made twice.
* `modifyFirst_idem_of_key`, `modifyFirst_eq_self` : the first match, where what
  matches has one key and where there is nothing to do.
* `foldl_idem_of_stable` : a loop whose steps, once done, stay done.
* `foldl_idem_of_overridden` : a loop whose later steps replace or pass earlier
  ones.
-/

namespace Flotilla.Lib

open Std

/-- Made again on what it left, the change leaves it. -/
def Idem {A : Type} (f : A → A) (a : A) : Prop := f (f a) = f a

theorem Idem.of_eq_self {A : Type} {f : A → A} {a : A} (h : f a = a) : Idem f a := by
  rw [Idem, h, h]

/-! ### Maps -/

namespace BTreeMap

variable {K V : Type} [Ord K] [TransOrd K] [LawfulEqOrd K] {f : V → V} {k : K}
  {m : BTreeMap K V}

theorem modify_eq_self (h : ∀ v, m[k]? = some v → f v = v) : m.modify k f = m := by
  apply ExtTreeMap.ext_getElem?
  intro k'
  rw [ExtTreeMap.getElem?_modify]
  split
  case isTrue hk =>
    obtain rfl := compare_eq_iff_eq.mp hk
    cases hv : m[k]? with
    | none => rfl
    | some v => rw [Option.map_some, h v hv]
  case isFalse => rfl

theorem alter_eq_self {f : Option V → Option V} (h : f m[k]? = m[k]?) : m.alter k f = m := by
  apply ExtTreeMap.ext_getElem?
  intro k'
  rw [ExtTreeMap.getElem?_alter]
  split
  case isTrue hk =>
    obtain rfl := compare_eq_iff_eq.mp hk
    exact h
  case isFalse => rfl

theorem map_eq_self {f : K → V → V} (h : ∀ k v, m[k]? = some v → f k v = v) : m.map f = m := by
  apply ExtTreeMap.ext_getElem?
  intro k
  rw [ExtTreeMap.getElem?_map]
  cases hv : m[k]? with
  | none => rfl
  | some v => rw [Option.map_some, h k v hv]

theorem modify_idem (h : ∀ v, f (f v) = f v) (m : BTreeMap K V) (k : K) :
    (m.modify k f).modify k f = m.modify k f := by
  refine modify_eq_self fun v hv => ?_
  rw [ExtTreeMap.getElem?_modify_self] at hv
  obtain ⟨v', -, rfl⟩ := Option.map_eq_some_iff.mp hv
  exact h v'

theorem alter_idem {f : Option V → Option V} (h : ∀ v, f (f v) = f v) (m : BTreeMap K V) (k : K) :
    (m.alter k f).alter k f = m.alter k f := by
  refine alter_eq_self ?_
  rw [ExtTreeMap.getElem?_alter_self]
  exact h m[k]?

theorem map_idem {f : K → V → V} (h : ∀ k v, f k (f k v) = f k v) (m : BTreeMap K V) :
    (m.map f).map f = m.map f := by
  refine map_eq_self fun k v hv => ?_
  rw [ExtTreeMap.getElem?_map] at hv
  obtain ⟨v', -, rfl⟩ := Option.map_eq_some_iff.mp hv
  exact h k v'

theorem modify_modify (f g : V → V) :
    (m.modify k f).modify k g = m.modify k (g ∘ f) := by
  apply ExtTreeMap.ext_getElem?
  intro k'
  by_cases hk : k = k'
  · subst hk
    rw [ExtTreeMap.getElem?_modify_self, ExtTreeMap.getElem?_modify_self,
      ExtTreeMap.getElem?_modify_self, Option.map_map]
  · simp [ExtTreeMap.getElem?_modify, hk]

theorem modify_comm (m : BTreeMap K V) {k k' : K} (h : k ≠ k') (f g : V → V) :
    (m.modify k f).modify k' g = (m.modify k' g).modify k f := by
  apply ExtTreeMap.ext_getElem?
  intro k''
  by_cases hk : k = k''
  · subst hk
    simp [ExtTreeMap.getElem?_modify, Ne.symm h]
  · by_cases hk' : k' = k''
    · subst hk'
      simp [ExtTreeMap.getElem?_modify, h]
    · simp [ExtTreeMap.getElem?_modify, hk, hk']

end BTreeMap

/-! ### Lists -/

section Lists

variable {A K : Type} {f : A → A} {l : List A} {p : A → Bool}

/-- What matches has one key and no two elements have the same key: the second time meets the
element it changed, or nothing. -/
theorem modifyFirst_idem_of_key {key : A → K} {k : K} (hp : ∀ a, p a = true → key a = k)
    (hf : ∀ a, p a = true → p (f a) = true → f (f a) = f a) (hl : (l.map key).Nodup) :
    modifyFirst p f (modifyFirst p f l) = modifyFirst p f l := by
  induction l with
  | nil => rfl
  | cons a l ih =>
    obtain ⟨ha, hl⟩ := List.nodup_cons.mp hl
    rcases Bool.eq_false_or_eq_true (p a) with hpa | hpa
    · rw [modifyFirst_cons_of_pos hpa]
      rcases Bool.eq_false_or_eq_true (p (f a)) with hfa | hfa
      · rw [modifyFirst_cons_of_pos hfa, hf a hpa hfa]
      · rw [modifyFirst_cons_of_neg hfa, modifyFirst_of_none]
        -- Another match would have the key of `a`.
        intro b hb
        by_contra hpb
        have hkb : key b = key a := by rw [hp a hpa, hp b (by simpa using hpb)]
        exact ha (hkb ▸ List.mem_map_of_mem hb)
    · rw [modifyFirst_cons_of_neg hpa, modifyFirst_cons_of_neg hpa, ih hl]

theorem modifyFirst_eq_self (h : ∀ a, l.find? p = some a → f a = a) : modifyFirst p f l = l := by
  induction l with
  | nil => rfl
  | cons a l ih =>
    rcases Bool.eq_false_or_eq_true (p a) with hpa | hpa
    · rw [modifyFirst_cons_of_pos hpa, h a (List.find?_cons_of_pos hpa)]
    · rw [modifyFirst_cons_of_neg hpa, ih]
      intro b hb
      exact h b (by rw [List.find?_cons_of_neg (by simp [hpa]), hb])

theorem modifyFirst_modifyFirst {f g : A → A} (h : ∀ a, p a = true → p (f a) = true) (l : List A) :
    modifyFirst p g (modifyFirst p f l) = modifyFirst p (g ∘ f) l := by
  induction l with
  | nil => rfl
  | cons a l ih =>
    rcases Bool.eq_false_or_eq_true (p a) with hpa | hpa
    · rw [modifyFirst_cons_of_pos hpa, modifyFirst_cons_of_pos (h a hpa),
        modifyFirst_cons_of_pos hpa]
      rfl
    · rw [modifyFirst_cons_of_neg hpa, modifyFirst_cons_of_neg hpa, modifyFirst_cons_of_neg hpa, ih]

/-- Changes of different items, which stay different, may be made in either order. -/
theorem modifyFirst_comm {p q : A → Bool} {f g : A → A} (hpq : ∀ a, p a = true → q a = false)
    (hf : ∀ a, q (f a) = q a) (hg : ∀ a, p (g a) = p a) :
    modifyFirst q g (modifyFirst p f l) = modifyFirst p f (modifyFirst q g l) := by
  induction l with
  | nil => rfl
  | cons a l ih =>
    rcases Bool.eq_false_or_eq_true (p a) with hpa | hpa
    · have hqa := hpq a hpa
      rw [modifyFirst_cons_of_pos hpa, modifyFirst_cons_of_neg (by rw [hf, hqa]),
        modifyFirst_cons_of_neg hqa, modifyFirst_cons_of_pos hpa]
    · rw [modifyFirst_cons_of_neg hpa]
      rcases Bool.eq_false_or_eq_true (q a) with hqa | hqa
      · rw [modifyFirst_cons_of_pos hqa, modifyFirst_cons_of_pos hqa,
          modifyFirst_cons_of_neg (by rw [hg, hpa])]
      · rw [modifyFirst_cons_of_neg hqa, modifyFirst_cons_of_neg hqa,
          modifyFirst_cons_of_neg hpa, ih]

/-- A change is not seen by a search for something else. -/
theorem find?_modifyFirst_other {p q : A → Bool}
    (h : ∀ a, p a = true → q a = false ∧ q (f a) = false) :
    (modifyFirst p f l).find? q = l.find? q := by
  induction l with
  | nil => rfl
  | cons a l ih =>
    rcases Bool.eq_false_or_eq_true (p a) with hpa | hpa
    · rw [modifyFirst_cons_of_pos hpa, List.find?_cons_of_neg (by simp [(h a hpa).2]),
        List.find?_cons_of_neg (by simp [(h a hpa).1])]
    · rw [modifyFirst_cons_of_neg hpa, List.find?_cons, List.find?_cons, ih]

end Lists

/-! ### Loops -/

section Loops

variable {S A : Type} {f : S → A → S}

/-- Each step, once done, stays done whatever other steps follow. -/
theorem foldl_idem_of_stable (hidem : ∀ s a, f (f s a) a = f s a)
    (hstable : ∀ s a b, f s a = s → f (f s b) a = f s b) (l : List A) (s : S) :
    l.foldl f (l.foldl f s) = l.foldl f s := by
  refine List.foldlRecOn (motive := (· = l.foldl f s)) l f rfl ?_
  rintro _ rfl a ha
  obtain ⟨before, after, rfl⟩ := List.append_of_mem ha
  rw [List.foldl_append, List.foldl_cons]
  exact List.foldlRecOn (motive := fun t => f t a = t) after f (hidem _ a)
    fun t ht b _ => hstable t a b ht

/-- A step that comes again later may be left out, when each step between replaces what it did or
passes it. -/
theorem foldl_idem_of_overridden (hidem : ∀ s a, f (f s a) a = f s a)
    (hpass : ∀ s a b, f (f s a) b = f s b ∨ f (f s a) b = f (f s b) a) (l : List A) (s : S) :
    l.foldl f (l.foldl f s) = l.foldl f s := by
  have hbetween : ∀ (m : List A) (t : S) (a : A),
      m.foldl f (f t a) = m.foldl f t ∨ m.foldl f (f t a) = f (m.foldl f t) a := by
    intro m
    induction m with
    | nil => exact fun _ _ => .inr rfl
    | cons b m ih =>
      intro t a
      rw [List.foldl_cons, List.foldl_cons]
      rcases hpass t a b with h | h
      · exact .inl (by rw [h])
      · rw [h]
        exact ih (f t b) a
  have hagain : ∀ (m : List A) (t : S) (a : A), f (m.foldl f (f t a)) a = f (m.foldl f t) a := by
    intro m t a
    rcases hbetween m t a with h | h
    · rw [h]
    · rw [h, hidem]
  -- Induction on the loop: its first step comes again after the rest and what was between.
  have hshift : ∀ (l m : List A) (t : S), (l ++ m ++ l).foldl f t = (m ++ l).foldl f t := by
    intro l
    induction l with
    | nil => intro m t; simp
    | cons a l ih =>
      intro m t
      have hfirst : ((a :: l) ++ m ++ a :: l).foldl f t = (l ++ (m ++ [a]) ++ l).foldl f t := by
        have h := hagain (l ++ m) t a
        simp only [List.cons_append, List.append_assoc, List.foldl_append, List.foldl_cons,
          List.nil_append] at h ⊢
        rw [h]
      rw [hfirst, ih (m ++ [a]) t]
      simp
  have h := hshift l [] s
  simpa using h

end Loops

end Flotilla.Lib
