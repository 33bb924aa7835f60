import Mathlib

/-!
# A register that keeps the better arrival

A register holds at most one value.  An arriving value is stored when it is
acceptable and beats the one held, if any.  Nothing is asked of `beats`; it need
not be an order.

* `run_ne_some` : what never arrives, or is not acceptable, is never held.
* `run_some` : a value that no arrival beats stays.
* `run_eq_some_iff` : one value is held at the end, whatever the arrival order,
  exactly when it is acceptable and wins against every other acceptable one,
  whichever of the two comes first.
-/

namespace Flotilla.Lib.Register

variable {A : Type} (ok : A → Prop) (beats : A → A → Prop)

open Classical in
noncomputable def step (slot : Option A) (a : A) : Option A :=
  if ok a ∧ ∀ b ∈ slot, beats a b then some a else slot

noncomputable def run (slot : Option A) (arrivals : List A) : Option A :=
  arrivals.foldl (step ok beats) slot

variable {ok beats} {slot : Option A} {a top : A} {l : List A}

theorem step_pos (hok : ok a) (h : ∀ b ∈ slot, beats a b) : step ok beats slot a = some a :=
  if_pos ⟨hok, h⟩

theorem step_neg (h : ¬ (ok a ∧ ∀ b ∈ slot, beats a b)) : step ok beats slot a = slot :=
  if_neg h

theorem step_ne_some (ha : ok a → a ≠ top) (hslot : slot ≠ some top) :
    step ok beats slot a ≠ some top := by
  unfold step
  split
  next hstored => exact fun h => ha hstored.1 (Option.some.inj h)
  · exact hslot

theorem run_append (l l' : List A) :
    run ok beats slot (l ++ l') = run ok beats (run ok beats slot l) l' := by
  unfold run
  rw [List.foldl_append]

theorem run_ne_some (hl : ∀ a ∈ l, ok a → a ≠ top) (hslot : slot ≠ some top) :
    run ok beats slot l ≠ some top := by
  induction l generalizing slot with
  | nil => exact hslot
  | cons a l ih =>
    exact ih (fun b hb => hl b (List.mem_cons_of_mem a hb))
      (step_ne_some (hl a List.mem_cons_self) hslot)

theorem run_some (hl : ∀ a ∈ l, ok a → ¬ beats a top) : run ok beats (some top) l = some top := by
  induction l with
  | nil => rfl
  | cons a l ih =>
    have hstep : step ok beats (some top) a = some top :=
      step_neg fun h => hl a List.mem_cons_self h.1 (h.2 top rfl)
    show run ok beats (step ok beats (some top) a) l = some top
    rw [hstep]
    exact ih fun b hb => hl b (List.mem_cons_of_mem a hb)

/-- What is held arrived and was acceptable. -/
theorem mem_of_run (h : run ok beats none l = some a) : a ∈ l ∧ ok a := by
  by_contra hnot
  have hl : ∀ b ∈ l, ok b → b ≠ a := fun b hb hok hba => hnot ⟨hba ▸ hb, hba ▸ hok⟩
  exact run_ne_some hl (by simp) h

theorem run_eq_some_of_wins {pre post : List A} (hok : ok top)
    (hpre : ∀ a ∈ pre, ok a → beats top a) (hpost : ∀ a ∈ post, ok a → ¬ beats a top) :
    run ok beats none (pre ++ top :: post) = some top := by
  rw [run_append]
  have hstep : step ok beats (run ok beats none pre) top = some top := by
    refine step_pos hok fun b hb => ?_
    obtain ⟨hmem, hokb⟩ := mem_of_run hb
    exact hpre b hmem hokb
  show run ok beats (step ok beats (run ok beats none pre) top) post = some top
  rw [hstep]
  exact run_some hpost

/-- **One value is held in the end for every arrival order** exactly when it is
acceptable, beats every other acceptable value, and is beaten by none. -/
theorem run_eq_some_iff (hnodup : l.Nodup) (htop : top ∈ l) :
    (∀ order : List A, order.Perm l → run ok beats none order = some top) ↔
      ok top ∧ ∀ a ∈ l, a ≠ top → ok a → beats top a ∧ ¬ beats a top := by
  constructor
  · intro hall
    refine ⟨(mem_of_run (hall _ (List.Perm.refl _))).2, ?_⟩
    intro a ha hne hok
    obtain ⟨rest, hperm⟩ : ∃ rest, (a :: top :: rest).Perm l := by
      classical
      have hrest : top ∈ l.erase a := (List.mem_erase_of_ne (Ne.symm hne)).mpr htop
      exact ⟨_, ((List.perm_cons_erase hrest).symm.cons a).trans (List.perm_cons_erase ha).symm⟩
    have hother : ∀ b ∈ rest, ok b → b ≠ top := fun b hb _ hbt =>
      (List.nodup_cons.mp (hperm.nodup_iff.mpr hnodup).of_cons).1 (hbt ▸ hb)
    constructor
    · -- With `a` first and `top` second, `top` has to beat `a`.
      by_contra hbeats
      have hfirst : step ok beats none a = some a := step_pos hok (by simp)
      have hsecond : step ok beats (some a) top = some a :=
        step_neg fun h => hbeats (h.2 a rfl)
      have hrun := hall _ hperm
      have hunfold : run ok beats none (a :: top :: rest) =
          run ok beats (step ok beats (step ok beats none a) top) rest := rfl
      rw [hunfold, hfirst, hsecond] at hrun
      exact run_ne_some hother (fun h => hne (Option.some.inj h)) hrun
    · -- With `top` and `a` last, `a` must not displace `top`.
      intro hbeats
      have horder : (rest ++ [top, a]).Perm l :=
        (List.perm_append_comm.trans (List.Perm.swap a top _)).trans hperm
      have hrun := hall _ horder
      rw [run_append] at hrun
      have hunfold : ∀ slot, run ok beats slot [top, a] =
          step ok beats (step ok beats slot top) a := fun _ => rfl
      rw [hunfold] at hrun
      by_cases hheld : step ok beats (run ok beats none rest) top = some top
      · rw [hheld, step_pos hok (by rintro b ⟨⟩; exact hbeats)] at hrun
        exact hne (Option.some.inj hrun)
      · exact step_ne_some (fun _ => hne) hheld hrun
  · rintro ⟨hok, hwins⟩ order horder
    obtain ⟨pre', post', rfl⟩ := List.append_of_mem (horder.mem_iff.mpr htop)
    have hnotMem := (List.perm_middle.nodup_iff.mp (horder.nodup_iff.mpr hnodup)).notMem
    have hwin : ∀ a ∈ pre' ++ post', ok a → beats top a ∧ ¬ beats a top := by
      intro a ha hoka
      refine hwins a (horder.mem_iff.mp ?_) (fun h => hnotMem (h ▸ ha)) hoka
      exact List.perm_middle.mem_iff.mpr (List.mem_cons_of_mem top ha)
    exact run_eq_some_of_wins hok
      (fun a ha hoka => (hwin a (List.mem_append_left _ ha) hoka).1)
      (fun a ha hoka => (hwin a (List.mem_append_right _ ha) hoka).2)

end Flotilla.Lib.Register
