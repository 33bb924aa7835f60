import Flotilla.Definition.Merge
import Flotilla.Lib.Loop

/-!
# Merging one field

What `mergeField` returns, said without its order of steps.  The survivors are
the candidates no other candidate supersedes; the result holds one survivor for
every surviving value; so it is empty exactly when nothing survives, has two
entries exactly when two different values survive, and is a single entry exactly
when all survivors agree.

`agree_iff` is the form the write path uses: every survivor carrying `v` is the
same as `v` being chosen with nothing in conflict.  `leads_iff` says which value
is chosen where several survive.
-/

namespace Flotilla.Definition

open Lib

variable {V : Type} [JsonValue V] {cs : List (FieldCandidate V)} {c : FieldCandidate V}

omit [JsonValue V] in
theorem mem_causallyMaximal :
    c ∈ causallyMaximal cs ↔ c ∈ cs ∧ ∀ other ∈ cs, other.supersedes c = false := by
  simp [causallyMaximal]

theorem mem_mergeField :
    c ∈ mergeField cs ↔
      (causallyMaximal cs).find?
        (fun other => JsonValue.text other.value = JsonValue.text c.value) = some c := by
  have hmem : c ∈ mergeField cs ↔ ∃ k : String, (BTreeMap.firstBy
      (fun c : FieldCandidate V => JsonValue.text c.value) (causallyMaximal cs))[k]? = some c := by
    simp only [mergeField, List.mem_insertionSort, List.mem_map, Prod.exists,
      Std.ExtTreeMap.mem_toList_iff_getElem?_eq_some, exists_eq_right]
  rw [hmem]
  simp only [BTreeMap.lookup_firstBy]
  constructor
  · rintro ⟨k, hk⟩
    rw [(of_find? hk).2]
    exact hk
  · intro h
    exact ⟨_, h⟩

/-- What is shown survived. -/
theorem mem_maximal_of_mem_mergeField (h : c ∈ mergeField cs) : c ∈ causallyMaximal cs :=
  List.mem_of_find?_eq_some (mem_mergeField.mp h)

/-- Every surviving value is shown. -/
theorem exists_mem_mergeField (h : c ∈ causallyMaximal cs) :
    ∃ shown ∈ mergeField cs, shown.value = c.value := by
  cases hf : (causallyMaximal cs).find?
      (fun other => JsonValue.text other.value = JsonValue.text c.value) with
  | none =>
    have hnone := List.find?_eq_none.mp hf c h
    simp at hnone
  | some shown =>
    have htext := (of_find? hf).2
    refine ⟨shown, mem_mergeField.mpr ?_, JsonValue.text_injective htext⟩
    rw [htext]
    exact hf

/-- No value is shown twice. -/
theorem eq_of_mem_mergeField {c d : FieldCandidate V} (hc : c ∈ mergeField cs)
    (hd : d ∈ mergeField cs) (hv : c.value = d.value) : c = d := by
  have h := mem_mergeField.mp hc
  rw [hv, mem_mergeField.mp hd] at h
  exact (Option.some.inj h).symm

theorem nodup_mergeField (cs : List (FieldCandidate V)) : (mergeField cs).Nodup := by
  unfold mergeField
  rw [(List.perm_insertionSort _ _).nodup_iff, List.Nodup, List.pairwise_map]
  refine (Std.ExtTreeMap.distinct_keys_toList).imp_of_mem ?_
  rintro ⟨k, c⟩ ⟨l, d⟩ hc hd hkl heq
  rw [Std.ExtTreeMap.mem_toList_iff_getElem?_eq_some, BTreeMap.lookup_firstBy] at hc hd
  apply hkl
  rw [Std.compare_eq_iff_eq, ← (of_find? hc).2, ← (of_find? hd).2]
  exact congrArg (fun c : FieldCandidate V => JsonValue.text c.value) heq

theorem mergeField_eq_nil : mergeField cs = [] ↔ causallyMaximal cs = [] := by
  constructor
  · intro h
    rw [List.eq_nil_iff_forall_not_mem]
    intro c hc
    obtain ⟨shown, hshown, -⟩ := exists_mem_mergeField hc
    rw [h] at hshown
    exact absurd hshown List.not_mem_nil
  · intro h
    rw [List.eq_nil_iff_forall_not_mem]
    intro c hc
    have hmem := mem_maximal_of_mem_mergeField hc
    rw [h] at hmem
    exact absurd hmem List.not_mem_nil

/-- A field conflicts exactly when two different values survive. -/
theorem one_lt_length_mergeField :
    1 < (mergeField cs).length ↔
      ∃ c ∈ causallyMaximal cs, ∃ d ∈ causallyMaximal cs, c.value ≠ d.value := by
  constructor
  · intro h
    match hm : mergeField cs, h with
    | c :: d :: rest, _ =>
      have hc : c ∈ mergeField cs := by simp [hm]
      have hd : d ∈ mergeField cs := by simp [hm]
      have hne : c ≠ d := by
        have hnodup := nodup_mergeField cs
        rw [hm] at hnodup
        intro heq
        simp [heq] at hnodup
      refine ⟨c, mem_maximal_of_mem_mergeField hc, d, mem_maximal_of_mem_mergeField hd, ?_⟩
      exact fun hv => hne (eq_of_mem_mergeField hc hd hv)
  · rintro ⟨c, hc, d, hd, hne⟩
    obtain ⟨c', hc', hcv⟩ := exists_mem_mergeField hc
    obtain ⟨d', hd', hdv⟩ := exists_mem_mergeField hd
    by_contra hlen
    match hm : mergeField cs, hlen with
    | [], _ => rw [hm] at hc'; exact absurd hc' List.not_mem_nil
    | [e], _ =>
      rw [hm, List.mem_singleton] at hc' hd'
      rw [← hcv, ← hdv, hc', hd'] at hne
      exact hne rfl
    | _ :: _ :: _, hlen => exact hlen (by simp)

/-- **Agreement is choice without conflict.**  One survivor, and every survivor
carrying `v`, is the same as `v` being chosen and shown alone. -/
theorem agree_iff {v : V} (hne : mergeField cs ≠ []) :
    (∀ c ∈ causallyMaximal cs, c.value = v) ↔
      (mergeField cs).head?.map (·.value) = some v ∧ ¬ 1 < (mergeField cs).length := by
  constructor
  · intro h
    constructor
    · cases hm : mergeField cs with
      | nil => exact absurd hm hne
      | cons c rest =>
        have hc : c ∈ mergeField cs := by simp [hm]
        simp [h c (mem_maximal_of_mem_mergeField hc)]
    · rw [one_lt_length_mergeField]
      rintro ⟨c, hc, d, hd, hcd⟩
      exact hcd ((h c hc).trans (h d hd).symm)
  · rintro ⟨hhead, hlen⟩ c hc
    cases hm : mergeField cs with
    | nil => exact absurd hm hne
    | cons d rest =>
      have hd : d ∈ mergeField cs := by simp [hm]
      rw [hm] at hhead
      simp only [List.head?_cons, Option.map_some, Option.some.injEq] at hhead
      by_contra hcv
      apply hlen
      rw [one_lt_length_mergeField]
      refine ⟨c, hc, d, mem_maximal_of_mem_mergeField hd, ?_⟩
      rw [hhead]
      exact hcv

/-! ### The chosen value -/

/-- `c` speaks for its value: it is the first candidate with the value that no other supersedes. -/
def Speaks (cs : List (FieldCandidate V)) (c : FieldCandidate V) : Prop :=
  (∀ other ∈ cs, other.supersedes c = false) ∧ ∃ before after, cs = before ++ c :: after ∧
    ∀ earlier ∈ before, earlier.value = c.value → ∃ other ∈ cs, other.supersedes earlier = true

/-- The smaller dot goes first; where two dots are the same, the smaller text. -/
def Ranks (c d : FieldCandidate V) : Prop :=
  dotLe c.metadata.dot d.metadata.dot ∧
    (dotLe d.metadata.dot c.metadata.dot → JsonValue.text c.value < JsonValue.text d.value)

/-- The candidate that speaks for `v` ranks before those of the other values. -/
def Leads (cs : List (FieldCandidate V)) (v : V) : Prop :=
  ∃ c, Speaks cs c ∧ c.value = v ∧ ∀ d, Speaks cs d → d.value ≠ v → Ranks c d

theorem mem_mergeField_iff : c ∈ mergeField cs ↔ Speaks cs c := by
  rw [mem_mergeField, causallyMaximal, List.find?_filter, List.find?_eq_some_iff_append]
  simp [Speaks, JsonValue.text_injective.eq_iff, imp_iff_or_not]

theorem dotLe_total (a b : CausalDot) : dotLe a b ∨ dotLe b a := by
  rcases lt_trichotomy a.authorRoot b.authorRoot with h | h | h
  · exact .inl (.inl h)
  · exact (le_total a.authorCounter b.authorCounter).imp (fun hle => .inr ⟨h, hle⟩)
      fun hle => .inr ⟨h.symm, hle⟩
  · exact .inr (.inl h)

theorem dotLe_trans {a b c : CausalDot} (hab : dotLe a b) (hbc : dotLe b c) : dotLe a c := by
  rcases hab with hab | ⟨hab, hab'⟩ <;> rcases hbc with hbc | ⟨hbc, hbc'⟩
  · exact .inl (hab.trans hbc)
  · exact .inl (hbc ▸ hab)
  · exact .inl (hab ▸ hbc)
  · exact .inr ⟨hab.trans hbc, hab'.trans hbc'⟩

/-- The values are shown in the order of their dots, and of their texts where dots are the same. -/
theorem pairwise_mergeField (cs : List (FieldCandidate V)) : (mergeField cs).Pairwise Ranks := by
  have : IsTrans (FieldCandidate V) fun c d => dotLe c.metadata.dot d.metadata.dot :=
    ⟨fun _ _ _ => dotLe_trans⟩
  have : Std.Total fun c d : FieldCandidate V => dotLe c.metadata.dot d.metadata.dot :=
    ⟨fun c d => dotLe_total c.metadata.dot d.metadata.dot⟩
  refine pairwise_insertionSort_stable ?_
  rw [List.pairwise_map]
  refine Std.ExtTreeMap.ordered_keys_toList.imp_of_mem ?_
  rintro ⟨k, c⟩ ⟨l, d⟩ hc hd hkl
  rw [Std.ExtTreeMap.mem_toList_iff_getElem?_eq_some, BTreeMap.lookup_firstBy] at hc hd
  rw [(of_find? hc).2, (of_find? hd).2]
  exact compare_lt_iff_lt.mp hkl

/-- **The chosen value is the one that leads.** -/
theorem leads_iff {v : V} : (mergeField cs).head?.map (·.value) = some v ↔ Leads cs v := by
  simp only [Leads, ← mem_mergeField_iff]
  have hranks := pairwise_mergeField cs
  cases hm : mergeField cs with
  | nil => simp
  | cons c rest =>
    rw [hm] at hranks
    obtain ⟨hfirst, -⟩ := List.pairwise_cons.mp hranks
    simp only [List.head?_cons, Option.map_some, Option.some.injEq]
    constructor
    · rintro rfl
      refine ⟨c, List.mem_cons_self, rfl, fun d hd hne => ?_⟩
      rcases List.mem_cons.mp hd with rfl | hd
      · exact absurd rfl hne
      · exact hfirst d hd
    · rintro ⟨d, hd, rfl, hall⟩
      rcases List.mem_cons.mp hd with rfl | hd
      · rfl
      · by_contra hne
        have hcd := hfirst d hd
        have hdc := hall c List.mem_cons_self hne
        exact lt_asymm (hcd.2 hdc.1) (hdc.2 hcd.1)

end Flotilla.Definition
