import Mathlib

/-!
# The first match in a list

`iter_mut().find(p)` changes the first item that satisfies `p`, and
`last_mut()` changes the last one.  A search for a free name tries the names
in turn.

* `mem_modifyFirst`, `exists_mem_modifyFirst` : what a changed list holds, and
  where an item of the old list went.
* `map_modifyFirst` : a change that keeps the key keeps the list of keys.
* `find?_modifyFirst`, `modifyFirst_idem` : a change that keeps the match finds
  it again, and is done twice as once.
* `firstFree_not_mem` : among one more names than are taken, one is free.
-/

namespace Flotilla.Lib

variable {A B : Type}

/-- Change the first item that satisfies `p`. -/
def modifyFirst (p : A → Bool) (f : A → A) : List A → List A
  | [] => []
  | a :: l => if p a then f a :: l else a :: modifyFirst p f l

section ModifyFirst

variable {p : A → Bool} {f : A → A} {l : List A} {a b : A}

theorem modifyFirst_cons_of_pos (h : p a = true) : modifyFirst p f (a :: l) = f a :: l := by
  simp [modifyFirst, h]

theorem modifyFirst_cons_of_neg (h : p a = false) :
    modifyFirst p f (a :: l) = a :: modifyFirst p f l := by
  simp [modifyFirst, h]

theorem mem_modifyFirst (h : b ∈ modifyFirst p f l) : b ∈ l ∨ ∃ a ∈ l, p a = true ∧ b = f a := by
  induction l with
  | nil => exact absurd h List.not_mem_nil
  | cons a l ih =>
    cases hp : p a with
    | true =>
      rw [modifyFirst_cons_of_pos hp] at h
      rcases List.mem_cons.mp h with rfl | h
      · exact .inr ⟨a, by simp, hp, rfl⟩
      · exact .inl (List.mem_cons_of_mem a h)
    | false =>
      rw [modifyFirst_cons_of_neg hp] at h
      rcases List.mem_cons.mp h with rfl | h
      · exact .inl (by simp)
      · rcases ih h with h | ⟨c, hc, hpc, hb⟩
        · exact .inl (List.mem_cons_of_mem a h)
        · exact .inr ⟨c, List.mem_cons_of_mem a hc, hpc, hb⟩

theorem exists_mem_modifyFirst (h : a ∈ l) :
    a ∈ modifyFirst p f l ∨ (p a = true ∧ f a ∈ modifyFirst p f l) := by
  induction l with
  | nil => exact absurd h List.not_mem_nil
  | cons c l ih =>
    cases hp : p c with
    | true =>
      rw [modifyFirst_cons_of_pos hp]
      rcases List.mem_cons.mp h with rfl | h
      · exact .inr ⟨hp, by simp⟩
      · exact .inl (List.mem_cons_of_mem _ h)
    | false =>
      rw [modifyFirst_cons_of_neg hp]
      rcases List.mem_cons.mp h with rfl | h
      · exact .inl (by simp)
      · exact (ih h).imp (List.mem_cons_of_mem _) (And.imp_right (List.mem_cons_of_mem _))

theorem map_modifyFirst {key : A → B} (h : ∀ a, p a = true → key (f a) = key a) :
    (modifyFirst p f l).map key = l.map key := by
  induction l with
  | nil => rfl
  | cons a l ih =>
    cases hp : p a with
    | true => simp [modifyFirst_cons_of_pos hp, h a hp]
    | false => simp [modifyFirst_cons_of_neg hp, ih]

theorem modifyFirst_of_none (h : ∀ a ∈ l, p a = false) : modifyFirst p f l = l := by
  induction l with
  | nil => rfl
  | cons a l ih =>
    rw [modifyFirst_cons_of_neg (h a (by simp)), ih fun b hb => h b (by simp [hb])]

theorem find?_modifyFirst (h : ∀ a, p a = true → p (f a) = true) :
    (modifyFirst p f l).find? p = (l.find? p).map f := by
  induction l with
  | nil => rfl
  | cons a l ih =>
    cases hp : p a with
    | true => simp [modifyFirst_cons_of_pos hp, hp, h a hp]
    | false => simp [modifyFirst_cons_of_neg hp, hp, ih]

theorem any_of_find? (h : l.find? p = some a) : l.any p = true :=
  List.any_of_mem (List.mem_of_find?_eq_some h) (List.find?_some h)

/-- The first match is changed, or one is added: it is found, as changed or added. -/
theorem find?_upsert (hf : ∀ a, p a = true → p (f a) = true) (hb : p b = true) :
    ∃ a, (if l.any p then modifyFirst p f l else l ++ [b]).find? p = some a ∧
      (a = b ∨ ∃ c, a = f c) := by
  split
  case isTrue hany =>
    obtain ⟨c, hc⟩ := Option.isSome_iff_exists.mp (List.isSome_find?.trans hany)
    exact ⟨f c, by rw [find?_modifyFirst hf, hc]; rfl, .inr ⟨c, rfl⟩⟩
  case isFalse hnone =>
    refine ⟨b, ?_, .inl rfl⟩
    rw [List.find?_append, List.find?_eq_none.mpr fun a ha hp => hnone (List.any_of_mem ha hp)]
    simp [hb]

/-- A change that leaves the first match a match, and changes it no further, is done twice as
once. -/
theorem modifyFirst_idem (h : ∀ a, p a = true → p (f a) = true ∧ f (f a) = f a) :
    modifyFirst p f (modifyFirst p f l) = modifyFirst p f l := by
  induction l with
  | nil => rfl
  | cons a l ih =>
    cases hp : p a with
    | true => rw [modifyFirst_cons_of_pos hp, modifyFirst_cons_of_pos (h a hp).1, (h a hp).2]
    | false => rw [modifyFirst_cons_of_neg hp, modifyFirst_cons_of_neg hp, ih]

end ModifyFirst

/-- Change the last item. -/
def modifyLast (f : A → A) (l : List A) : List A :=
  match l.getLast? with
  | none => l
  | some last => l.dropLast ++ [f last]

theorem modifyLast_append_singleton (f : A → A) (l : List A) (a : A) :
    modifyLast f (l ++ [a]) = l ++ [f a] := by
  simp [modifyLast]

/-! ### A free name -/

section FirstFree

variable [DecidableEq A]

/-- The first of `name 1`, `name 2`, … that is not taken. -/
def firstFree (taken : List A) (name : Nat → A) : A :=
  (((List.range (taken.length + 1)).map fun i => name (i + 1)).find? (· ∉ taken)).getD
    (name (taken.length + 1))

theorem exists_free (taken : List A) {name : Nat → A} (hname : Function.Injective name) :
    ∃ i < taken.length + 1, name (i + 1) ∉ taken := by
  by_contra hall
  push Not at hall
  have hinj : Function.Injective fun i => name (i + 1) := fun i j h => Nat.succ_injective (hname h)
  have hsub : (Finset.range (taken.length + 1)).image (fun i => name (i + 1)) ⊆ taken.toFinset := by
    intro a ha
    obtain ⟨i, hi, rfl⟩ := Finset.mem_image.mp ha
    exact List.mem_toFinset.mpr (hall i (Finset.mem_range.mp hi))
  have hcard := Finset.card_le_card hsub
  rw [Finset.card_image_of_injective _ hinj, Finset.card_range] at hcard
  have := taken.toFinset_card_le
  omega

theorem firstFree_not_mem (taken : List A) {name : Nat → A} (hname : Function.Injective name) :
    firstFree taken name ∉ taken := by
  obtain ⟨i, hi, hfree⟩ := exists_free taken hname
  unfold firstFree
  cases hfind : ((List.range (taken.length + 1)).map fun i => name (i + 1)).find? (· ∉ taken) with
  | none =>
    have hall := List.find?_eq_none.mp hfind (name (i + 1))
      (List.mem_map.mpr ⟨i, List.mem_range.mpr hi, rfl⟩)
    exact absurd hfree (by simpa using hall)
  | some a => simpa using List.find?_some hfind

end FirstFree

end Flotilla.Lib
