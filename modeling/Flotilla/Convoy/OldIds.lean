import Flotilla.Convoy.Machine
import Flotilla.Lib.Text

/-!
# The ids that old records show

An engine promise has a label of its own in its convoy.  The old path calls it by an id that only
its owner tells apart: a template promise by its kind, an imported one by its label without the
seat.  Where two promises of one owner would share such an id, the later one shows its label.

* `oldIds` : the id each promise shows.
* `RoundTrips` : an owner's promises show distinct ids, and each is found by its own.
* `roundTrips_of_labelsClear` : they do when a promise whose label is the old id of another one
  stands before it and shows that label.
-/

namespace Flotilla.ConvoyMap

open Flotilla.Lib Flotilla.Engine Convoy Std

def seatKey (seat : SeatName) : String :=
  if seat.seat = "" then seat.role else seat.role ++ "~" ++ seat.seat

/-- The label a newly declared promise gets. -/
def label (seat : SeatName) (id kind : String) : PromiseSource → String
  | .template => "template/" ++ seatKey seat ++ "/" ++ kind
  | .dispatch | .crew => id

/-- A label less any seat qualifier. -/
def unqualified (label : String) : String :=
  match label.toList with
  | '@' :: rest => ((splitOnce '/' rest).map fun parts => String.ofList parts.2).getD label
  | _ => label

def oldId (promise : Promise) : String :=
  match promise.source with
  | .template => "template/" ++ promise.kind
  | .dispatch | .crew => unqualified promise.label

section Lookup

variable (spec : ConvoySpec)

/-- Why a label cannot be declared: another promise holds it. -/
def taken (label : String) : Option String :=
  (spec.promises.records.find? fun promise => promise.label = label).map fun promise =>
    "promise label `" ++ label ++ "` is already declared in this convoy, owned by `" ++
      seatKey promise.owner ++ "`; declare the deliverable under a distinct label"

/-- One more promise: the ids in use, and those shown. -/
def showNext (s : List (SeatName × String) × BTreeMap PromiseId String) (promise : Promise) :
    List (SeatName × String) × BTreeMap PromiseId String :=
  let short := oldId promise
  let id := if (promise.owner, short) ∈ s.1 then promise.label else short
  ((promise.owner, id) :: (promise.owner, short) :: s.1, s.2.insert promise.id id)

def oldIds : BTreeMap PromiseId String := (spec.promises.records.foldl showNext ([], ∅)).2

def owned (seat : SeatName) : List Promise := spec.promises.records.filter (·.owner = seat)

/-- The promise a crew calls `id`: its own of that label, or of that old id. -/
def find (seat : SeatName) (id : String) : Option Promise :=
  ((owned spec seat).find? fun promise => promise.label = id).or
    ((owned spec seat).find? fun promise => (oldIds spec)[promise.id]? = some id)

structure Distinct : Prop where
  ids : (spec.promises.records.map Promise.id).Nodup
  labels : (spec.promises.records.map Promise.label).Nodup

structure RoundTrips (seat : SeatName) : Prop where
  distinct : ((owned spec seat).map fun p => (oldIds spec)[p.id]?).Nodup
  found : ∀ p ∈ owned spec seat, ∃ id, (oldIds spec)[p.id]? = some id ∧ find spec seat id = some p

/-- A promise of the owner whose label is the old id of another one of the owner stands before it,
and shows that label: as its own old id, or because a promise before it has its old id. -/
def LabelsClear (seat : SeatName) : Prop :=
  ∀ p ∈ owned spec seat, ∀ q ∈ owned spec seat, oldId p = q.label → p = q ∨
    ([q, p].Sublist spec.promises.records ∧ (oldId q = q.label ∨
      ∃ j ∈ owned spec seat, [j, q].Sublist spec.promises.records ∧ oldId j = oldId q))

/-- What reassigns a promise, or declares one that is not found under a label that is not taken. -/
inductive Step : ConvoySpec → Prop
  | reassign {spec' : ConvoySpec} {position version : Nat} {owner : SeatName}
      (h : (ConvoyWrite.owner position owner).apply spec version = .ok spec') : Step spec'
  | declare {spec' : ConvoySpec} {p : Promise} {id : String} {source : PromiseSource}
      {version : Nat} (hfind : find spec p.owner id = none)
      (hlabel : p.label = label p.owner id p.kind source) (htaken : taken spec p.label = none)
      (hid : ∀ q ∈ spec.promises.records, q.id ≠ p.id)
      (h : (ConvoyWrite.promise p).apply spec version = .ok spec') : Step spec'

end Lookup

variable {spec spec' : ConvoySpec} {seat : SeatName}

theorem Step.distinct (hstep : Step spec spec') (h : Distinct spec) : Distinct spec' := by
  cases hstep with
  | reassign hwrite =>
    cases hwrite
    constructor <;> simp only [Records.records_modify]
    · rw [Table.map_key_modify _ (by simp)]
      exact h.ids
    · rw [Table.map_key_modify _ (by simp)]
      exact h.labels
  | @declare p _ _ _ _ _ htaken hid hwrite =>
    obtain ⟨promises, happend, hwrite⟩ := bind_eq_ok hwrite
    cases hwrite
    have hfree : ∀ q ∈ spec.promises.records, q.label ≠ p.label := by simpa [taken] using htaken
    constructor <;> simp only [(Records.records_append happend).2, List.map_append]
    · simpa [List.nodup_append] using ⟨h.ids, hid⟩
    · simpa [List.nodup_append] using ⟨h.labels, hfree⟩

/-- What the loop has shown of the promises so far. -/
structure Shown (l : List Promise) (s : List (SeatName × String) × BTreeMap PromiseId String) :
    Prop where
  used : ∀ p ∈ l, (p.owner, oldId p) ∈ s.1 ∧ ∃ id, s.2[p.id]? = some id ∧ (p.owner, id) ∈ s.1
  cases : ∀ p ∈ l, s.2[p.id]? = some (oldId p) ∨ s.2[p.id]? = some p.label
  /-- An old id that a promise before it has, or shows, is not shown again. -/
  after : ∀ p q, [q, p].Sublist l → q.owner = p.owner →
    oldId q = oldId p ∨ s.2[q.id]? = some (oldId p) → s.2[p.id]? = some p.label

theorem shown_foldl {l : List Promise} (hids : (l.map Promise.id).Nodup) :
    Shown l (l.foldl showNext ([], ∅)) := by
  induction l using List.reverseRecOn with
  | nil => exact ⟨by simp, by simp, by simp⟩
  | append_singleton l r ih =>
    rw [List.foldl_concat]
    obtain ⟨hids, hother⟩ := by simpa [List.nodup_append] using hids
    obtain ⟨hused, hcases, hafter⟩ := ih hids
    generalize l.foldl showNext ([], ∅) = s at hused hcases hafter ⊢
    have hkeep : ∀ p ∈ l, (showNext s r).2[p.id]? = s.2[p.id]? := by
      intro p hp
      simp [showNext, ExtTreeMap.getElem?_insert, Ne.symm (hother p hp)]
    have hlast : (showNext s r).2[r.id]? =
        some (if (r.owner, oldId r) ∈ s.1 then r.label else oldId r) := by
      simp [showNext]
    have hmem : ∀ p, p ∈ l ++ [r] → p ∈ l ∨ p = r := by simp
    refine ⟨fun p hp => ?_, fun p hp => ?_, ?_⟩
    · rcases hmem p hp with hp | rfl
      · obtain ⟨hold, id, hid, hmem⟩ := hused p hp
        exact ⟨by simp [showNext, hold], id, (hkeep p hp).trans hid, by simp [showNext, hmem]⟩
      · exact ⟨by simp [showNext], _, hlast, List.mem_cons_self⟩
    · rcases hmem p hp with hp | rfl
      · rw [hkeep p hp]
        exact hcases p hp
      · rw [hlast]
        split <;> simp
    · intro p q hbefore howner hshown
      obtain ⟨front, back, hsplit, hl, hback⟩ := List.sublist_append_iff.mp hbefore
      rcases List.sublist_singleton.mp hback with rfl | rfl
      · rw [List.append_nil] at hsplit
        subst hsplit
        have hq : q ∈ l := hl.subset (by simp)
        have hp : p ∈ l := hl.subset (by simp)
        rw [hkeep p hp]
        rw [hkeep q hq] at hshown
        exact hafter p q hl howner hshown
      · -- the last promise finds its old id in use
        have hpair : [q] ++ [p] = front ++ [r] := hsplit
        obtain ⟨rfl, hp⟩ := List.append_inj' hpair rfl
        obtain rfl : p = r := List.singleton_inj.mp hp
        have hq : q ∈ l := List.singleton_sublist.mp hl
        obtain ⟨hold, id, hid, hmem⟩ := hused q hq
        have huse : (p.owner, oldId p) ∈ s.1 := by
          rcases hshown with hsame | hsame
          · rw [← howner, ← hsame]
            exact hold
          · rw [hkeep q hq, hid] at hsame
            rw [← howner, ← Option.some.inj hsame]
            exact hmem
        rw [hlast, if_pos huse]

/-- **Shown ids are distinct and lead back** when the owner's labels are clear of the others' old
ids. -/
theorem roundTrips_of_labelsClear (hspec : Distinct spec)
    (hrun : Relation.ReflTransGen Step spec spec') (seat : SeatName)
    (hclear : LabelsClear spec' seat) : RoundTrips spec' seat := by
  have hdistinct : Distinct spec' := by
    clear hclear
    induction hrun with
    | refl => exact hspec
    | tail _ hstep ih => exact hstep.distinct ih
  obtain ⟨hused, hcases, hafter⟩ := shown_foldl hdistinct.ids
  have howned {p} (hp : p ∈ owned spec' seat) : p ∈ spec'.promises.records ∧ p.owner = seat := by
    simpa [owned] using hp
  -- no promise shows the label of another one
  have hlabel : ∀ p ∈ owned spec' seat, ∀ q ∈ owned spec' seat,
      (oldIds spec')[p.id]? = some q.label → p = q := by
    intro p hp q hq hshown
    have hown : (oldIds spec')[p.id]? = some p.label → p = q := fun hlabel =>
      List.inj_on_of_nodup_map hdistinct.labels (howned hp).1 (howned hq).1
        (Option.some.inj (hlabel.symm.trans hshown))
    rcases hcases p (howned hp).1 with hold | hold
    · have hsame : oldId p = q.label := Option.some.inj (hold.symm.trans hshown)
      have howner : q.owner = p.owner := (howned hq).2.trans (howned hp).2.symm
      rcases hclear p hp q hq hsame with heq | ⟨hbefore, hq' | ⟨j, hj, hjq, hold'⟩⟩
      · exact heq
      · exact hown (hafter p q hbefore howner (.inl (hq'.trans hsame.symm)))
      · have hfalls := hafter q j hjq ((howned hj).2.trans (howned hq).2.symm) (.inl hold')
        exact hown (hafter p q hbefore howner (.inr (hsame ▸ hfalls)))
    · exact hown hold
  have hnodup : ((owned spec' seat).map fun p => (oldIds spec')[p.id]?).Nodup := by
    refine List.pairwise_map.mpr (List.pairwise_iff_forall_sublist.mpr fun {p q} hpq hsame => ?_)
    have hp : p ∈ owned spec' seat := hpq.subset (by simp)
    have hq : q ∈ owned spec' seat := hpq.subset (by simp)
    have hbefore : [p, q].Sublist spec'.promises.records := hpq.trans List.filter_sublist
    have hshown : (oldIds spec')[q.id]? = some q.label := by
      rcases hcases q (howned hq).1 with hold | hold
      · exact hafter q p hbefore ((howned hp).2.trans (howned hq).2.symm) (.inr (hsame.trans hold))
      · exact hold
    obtain rfl := hlabel p hp q hq (hsame.trans hshown)
    exact List.nodup_iff_sublist.mp hdistinct.ids.of_map p hbefore
  refine ⟨hnodup, fun p hp => ?_⟩
  obtain ⟨-, id, hid, -⟩ := hused p (howned hp).1
  refine ⟨id, hid, ?_⟩
  unfold find
  cases hheld : (owned spec' seat).find? fun promise => promise.label = id with
  | some q =>
    obtain ⟨hq, rfl⟩ := of_find? hheld
    rw [hlabel p hp q hq hid]
    rfl
  | none => exact (Table.find?_eq_some_iff hnodup).mpr ⟨hp, hid⟩

/-- The promises `a`, as imported, of two crews, and a third crew's before or after them. -/
def threeHolders (first : Bool) : ConvoySpec :=
  let promise (id : Fin 3) (label role : String) : Promise :=
    ⟨id.castLE (by decide), label, "change", "repo", .crew, ⟨role, ""⟩, ⟨.pending, 0⟩, .new⟩
  let imported := [promise 0 "@r1/a" "r1", promise 1 "@r2/a" "r2"]
  { project := "p", promiseFloor := 0, priority := 0, duties := ∅, seats := .new
    promises := .ofList 1
      (if first then promise 2 "a" "r3" :: imported else imported ++ [promise 2 "a" "r3"])
      (by cases first <;> simp [imported, u32Count]) }

theorem threeHolders_distinct (first : Bool) : Distinct (threeHolders first) := by
  cases first <;> exact ⟨by decide, by decide⟩

/-- The third promise comes first, and keeps its id when it is handed to the first crew. -/
theorem threeHolders_roundTrips :
    ∃ spec', Step (threeHolders true) spec' ∧ (owned spec' ⟨"r1", ""⟩).length = 2 ∧
      RoundTrips spec' ⟨"r1", ""⟩ := by
  have hstep : Step (threeHolders true) _ := @Step.reassign _ _ 0 2 ⟨"r1", ""⟩ rfl
  refine ⟨_, hstep, rfl, roundTrips_of_labelsClear (threeHolders_distinct true)
    (.single hstep) _ ?_⟩
  show LabelsClear _ _
  unfold LabelsClear
  decide +kernel

/-- Once the third is handed to the first crew, both that crew's promises show `a`. -/
theorem handed_over_shares_id : Distinct (threeHolders false) ∧
    ∃ spec', Step (threeHolders false) spec' ∧ ¬ RoundTrips spec' ⟨"r1", ""⟩ := by
  refine ⟨threeHolders_distinct false, _, @Step.reassign _ _ 2 2 ⟨"r1", ""⟩ rfl, fun h => ?_⟩
  exact absurd h.distinct (by decide +kernel)

end Flotilla.ConvoyMap
