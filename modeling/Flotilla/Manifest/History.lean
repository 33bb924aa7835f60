import Flotilla.Manifest.Refinement
import Flotilla.Lib.Bytes

/-!
# The times a manifest root records

The specification has no times; the machine keeps two.  A source error is recorded
exactly when its start time is (`Settled`).  A standing refusal's time is explained
by the accepted passes of the run: a pass decides the refusal of a document that it
reached, and of every document when it is complete (`Applied.decides`), and
`Standing` says that a document has been refused for a reason since the first pass
of the unbroken run of passes that recorded it so.

* `root_follows_rules` : the machine follows the rules over every run, with both
  times explained.
-/

namespace Flotilla.Manifest

open Lib
open Engine

/-! ### Passes of a run -/

/-- The accepted passes of a run, with their times. -/
def passes (edges : List (RootEdge × Timestamp)) : List (Applied × Timestamp) :=
  edges.filterMap fun
    | (.applied a, now) => some (a, now)
    | _ => none

theorem passes_snoc_applied (edges : List (RootEdge × Timestamp)) (a : Applied) (now : Timestamp) :
    passes (edges ++ [(.applied a, now)]) = passes edges ++ [(a, now)] := by
  simp [passes]

/-- The pass decides whether a refusal of the document stands. -/
def Applied.decides (a : Applied) (document : String) : Prop :=
  a.complete = true ∨ document ∈ a.reached

/-- No pass of the list decides about the document. -/
def Silent (ps : List (Applied × Timestamp)) (document : String) : Prop :=
  ∀ p ∈ ps, ¬ p.1.decides document

/-- The last pass that decided about a document recorded this verdict. -/
def LastVerdict (ps : List (Applied × Timestamp)) (document : String) (verdict : Option String) :
    Prop :=
  ∀ before p after, ps = before ++ p :: after → p.1.decides document → Silent after document →
    p.1.refusals[document]? = verdict

/-- **Since when a document has been refused for a reason**: a pass recorded it so at `since`,
every later pass that decided about it recorded it so, and the last one before it that decided
did not. -/
def Standing (ps : List (Applied × Timestamp)) (document reason : String) (since : Timestamp) :
    Prop :=
  ∃ before a after, ps = before ++ (a, since) :: after ∧ a.refusals[document]? = some reason ∧
    (∀ p ∈ after, p.1.decides document → p.1.refusals[document]? = some reason) ∧
    ∀ earlier p between, before = earlier ++ p :: between → p.1.decides document →
      Silent between document → p.1.refusals[document]? ≠ some reason

variable {a : Applied} {document : String} {edge : RootEdge} {edges : List (RootEdge × Timestamp)}
  {now : Timestamp} {p : Applied × Timestamp} {ps : List (Applied × Timestamp)}
  {r : Resource RootSpec RootState}

theorem Standing.snoc {document reason : String} {since : Timestamp}
    (h : Standing ps document reason since)
    (hp : p.1.decides document → p.1.refusals[document]? = some reason) :
    Standing (ps ++ [p]) document reason since := by
  obtain ⟨before, a, after, rfl, ha, hafter, hbefore⟩ := h
  exact ⟨before, a, after ++ [p], by simp, ha, forall_mem_concat hafter hp, hbefore⟩

theorem LastVerdict.snoc {verdict verdict' : Option String} (h : LastVerdict ps document verdict)
    (hp : p.1.decides document → p.1.refusals[document]? = verdict')
    (hsilent : ¬ p.1.decides document → verdict' = verdict) :
    LastVerdict (ps ++ [p]) document verdict' := by
  intro before q after heq hq hafter
  rcases List.eq_nil_or_concat after with rfl | ⟨after', p', rfl⟩
  · -- The pass in question is the new one.
    obtain ⟨-, hpq⟩ := List.append_inj' heq rfl
    obtain rfl := List.singleton_inj.mp hpq
    exact hp hq
  · have heq' : ps ++ [p] = (before ++ q :: after') ++ [p'] := by simpa using heq
    obtain ⟨hps, hpp⟩ := List.append_inj' heq' rfl
    obtain rfl := List.singleton_inj.mp hpp
    have hnot : ¬ p.1.decides document := hafter p (by simp)
    rw [hsilent hnot]
    exact h before q after' hps hq fun x hx => hafter x (by simp [hx])

/-! ### What a pass does to one refusal -/

/-- A pass that does not decide about a document leaves its refusal. -/
theorem lookup_leaves_of_not_decides (h : ¬ a.decides document) (spec : RootSpec)
    (now : Timestamp) : (a.leaves spec now).refusals[document]? = spec.refusals[document]? := by
  rw [Applied.leaves, lookup_replace, if_neg]
  rw [Applied.mem_replacedIn]
  rintro (⟨hcomplete, -⟩ | hreached)
  · exact h (.inl hcomplete)
  · exact h (.inr hreached)

/-- A pass that decides about a document leaves its own verdict. -/
theorem lookup_leaves_of_decides (h : a.decides document)
    (hreached : ∀ d ∈ a.recorded, d ∈ a.reached) (spec : RootSpec) (now : Timestamp) :
    (a.leaves spec now).refusals[document]? =
      (a.refusalRecords spec.refusals now)[document]? := by
  rw [Applied.leaves, lookup_replace]
  split
  case isTrue => rfl
  case isFalse hnot =>
    -- A complete pass that did not reach the document, which was not refused either.
    rw [Applied.mem_replacedIn, not_or] at hnot
    have hcomplete : a.complete = true := h.resolve_right hnot.2
    have hkeys : document ∉ spec.refusals := fun hmem =>
      hnot.1 ⟨hcomplete, Std.ExtTreeMap.mem_keys.mpr hmem⟩
    have hnone : a.refusals[document]? = none := Std.ExtTreeMap.getElem?_eq_none fun hmem =>
      hnot.2 (hreached document (by simp [Applied.recorded, hmem]))
    rw [lookup_refusalRecords, hnone, Std.ExtTreeMap.getElem?_eq_none hkeys]
    rfl

/-! ### Along a run -/

/-- What the records of a root say about the passes of its run. -/
structure Explained (edges : List (RootEdge × Timestamp)) (r : Resource RootSpec RootState) :
    Prop where
  settled : Settled r.state.scalars
  standing : ∀ (document : String) (refusal : RefusalRecord),
    r.spec.refusals[document]? = some refusal →
      Standing (passes edges) document refusal.reason refusal.since
  last : ∀ document : String, LastVerdict (passes edges) document
    (r.spec.refusals[document]?.map RefusalRecord.reason)

/-- An accepted pass keeps the explanation. -/
theorem Explained.pass {r r' : Resource RootSpec RootState} (h : Explained edges r)
    (hreached : ∀ d ∈ a.recorded, d ∈ a.reached)
    (hrefusals : r'.spec.refusals = (a.leaves r.spec now).refusals)
    (hsettled : Settled r'.state.scalars) : Explained (edges ++ [(.applied a, now)]) r' := by
  refine ⟨hsettled, fun document refusal hlookup => ?_, fun document => ?_⟩
  · rw [passes_snoc_applied]
    rw [hrefusals] at hlookup
    by_cases hdecides : a.decides document
    · rw [lookup_leaves_of_decides hdecides hreached, lookup_refusalRecords] at hlookup
      obtain ⟨reason, hreason, rfl⟩ := Option.map_eq_some_iff.mp hlookup
      -- A new reason begins now; the same reason keeps the time it began.
      have hbegins : (∀ current, r.spec.refusals[document]? = some current →
          current.reason ≠ reason) → Standing (passes edges ++ [(a, now)]) document reason now := by
        intro hnew
        refine ⟨passes edges, a, [], rfl, hreason, by simp, ?_⟩
        intro earlier p between heq hp hsilent hsame
        rw [h.last document earlier p between heq hp hsilent] at hsame
        obtain ⟨current, hcurrent, hreason'⟩ := Option.map_eq_some_iff.mp hsame
        exact hnew current hcurrent hreason'
      cases hcurrent : r.spec.refusals[document]? with
      | none => exact hbegins (by simp [hcurrent])
      | some current =>
        by_cases hsame : current.reason = reason
        · simp only [if_pos hsame]
          subst hsame
          exact (h.standing document current hcurrent).snoc fun _ => hreason
        · simp only [if_neg hsame]
          refine hbegins fun other hother => ?_
          rw [hcurrent] at hother
          obtain rfl := Option.some.inj hother
          exact hsame
    · rw [lookup_leaves_of_not_decides hdecides] at hlookup
      exact (h.standing document refusal hlookup).snoc fun hd => absurd hd hdecides
  · rw [passes_snoc_applied, hrefusals]
    refine (h.last document).snoc (fun hdecides => ?_) fun hnot => ?_
    · rw [lookup_leaves_of_decides hdecides hreached, lookup_refusalRecords, Option.map_map]
      simp [Function.comp_def]
    · rw [lookup_leaves_of_not_decides hnot]

/-- An accepted edge other than a pass keeps the explanation. -/
theorem Explained.other {r r' : Resource RootSpec RootState} (h : Explained edges r)
    (hedge : ∀ a, edge ≠ .applied a) (hrefusals : r'.spec.refusals = r.spec.refusals)
    (hsettled : Settled r'.state.scalars) : Explained (edges ++ [(edge, now)]) r' := by
  have hpasses : passes (edges ++ [(edge, now)]) = passes edges := by
    cases edge with
    | applied a => exact absurd rfl (hedge a)
    | _ => simp [passes]
  refine ⟨hsettled, fun document refusal hlookup => ?_, fun document => ?_⟩
  · rw [hpasses]
    exact h.standing document refusal (hrefusals ▸ hlookup)
  · rw [hpasses, hrefusals]
    exact h.last document

/-- **An accepted edge keeps the explanation.** -/
theorem Explained.commit (h : Explained edges r) {moved : RootState × List RootWrite}
    (hmoved : root.decide r edge () now = .ok moved) (version : Nat) :
    Explained (edges ++ [(edge, now)]) (r.commit moved version now) := by
  obtain ⟨scalars, hstate, hgate, hafter⟩ := decide_eq_ok hmoved
  have hspec : (r.commit moved version now).spec = (after edge r.spec scalars now).1 :=
    congrArg Prod.fst (hafter version)
  have hscalars : (r.commit moved version now).state.scalars =
      (after edge r.spec scalars now).2.scalars :=
    congrArg RootState.scalars (congrArg Prod.snd (hafter version))
  have hs : Settled scalars := by
    have hold := h.settled
    rw [hstate] at hold
    exact hold
  cases edge with
  | applied a =>
    obtain ⟨next, hpass, -⟩ := bind_eq_ok (show gateApplied a _ = .ok () from hgate)
    refine h.pass (pass_eq_ok hpass).1 (by rw [hspec]; rfl) ?_
    rw [hscalars]
    exact ⟨by simp [after, RootState.scalars, Applied.leavesScalars], rfl⟩
  | sourceFailed error =>
    refine h.other (by simp) (by rw [hspec]; rfl) ?_
    obtain ⟨hempty, -⟩ := of_refuseIf (show gateSourceFailed error _ = .ok () from hgate)
    rw [hscalars]
    exact ⟨fun heq => hempty (Option.some.inj heq), rfl⟩
  | resolve document token outcome =>
    refine h.other (by simp) ?_ ?_
    · rw [hspec, after]
      cases r.spec.resolutions[document]? <;> rfl
    · rw [hscalars, after]
      cases r.spec.resolutions[document]? <;> exact ⟨hs.error, hs.time⟩
  | suspend | unsuspend | requestResolution | rebind | retire =>
    refine h.other (by simp) (by rw [hspec]; rfl) ?_
    rw [hscalars]
    exact ⟨hs.error, hs.time⟩

/-- A declared root has no records. -/
theorem Explained.admitted {request : RootRequest} (h : Admitted root request r) :
    Explained [] r := by
  obtain ⟨name, world, now, version, spec, state, hadmits, hlabel⟩ := h
  cases hadmits
  exact ⟨⟨by simp [RootState.scalars], rfl⟩, by simp,
    by intro d before p after heq; simp [passes] at heq⟩

/-- **A manifest root follows its rules.** -/
theorem root_follows_rules (t : BindingText) {request : RootRequest}
    {start r : Resource RootSpec RootState} (hstart : Admitted root request start)
    {edges : List (RootEdge × Timestamp)} (hrun : TimedRun root start edges r) :
    -- The accepted edges move the specification to the corresponding records,
    Rules.run (read t start) (edges.map fun edge => readEdge t edge.1) = some (read t r) ∧
    -- and the next edge, at any time, is accepted or refused as the specification says.
    (∀ edge now,
      (∀ moved, root.decide r edge () now = .ok moved → ∀ version,
        Rules.step (read t r) (readEdge t edge) = .moved (read t (r.commit moved version now))) ∧
      ∀ error, root.decide r edge () now = .error error → ∃ refusal, error = .refused refusal ∧
        Rules.step (read t r) (readEdge t edge) = .refused refusal) ∧
    r.state.scalars.sourceError.isSome = r.state.scalars.sourceFailedAt.isSome ∧
    ∀ (document : String) (refusal : RefusalRecord), r.spec.refusals[document]? = some refusal →
      Standing (passes edges) document refusal.reason refusal.since := by
  have hexplained : ∀ {edges r}, TimedRun root start edges r → Explained edges r := by
    intro edges r hrun
    induction hrun with
    | nil => exact .admitted hstart
    | snoc run world now version hmoved ih => exact ih.commit hmoved version
  have hmoves : Rules.run (read t start) (edges.map fun edge => readEdge t edge.1) =
      some (read t r) := by
    induction hrun with
    | nil => rfl
    | snoc run world now version hmoved ih =>
      rw [List.map_append]
      refine Rules.run_snoc ih ?_
      exact (decide_follows t (hexplained run).settled _ now).1 _ hmoved version
  have hend := hexplained hrun
  exact ⟨hmoves, fun edge now => decide_follows t hend.settled edge now, hend.settled.time,
    hend.standing⟩

/-! ### A root refused twice for one reason -/

/-- A text marked character by character, so that what follows it can be told apart. -/
def marked (text : String) : List Char := text.toList.flatMap fun c => ['x', c]

theorem marked_inj {a b : String} {u v : List Char}
    (h : marked a ++ 'y' :: u = marked b ++ 'y' :: v) : a = b ∧ u = v := by
  obtain ⟨hab, huv⟩ := flatMap_append_inj (g := id) (P := fun _ => True) (by simp) (by simp)
    (by simp) (by simp) (by simp) h
  exact ⟨String.toList_inj.mp (by simpa using hab), List.tail_eq_of_cons_eq huv⟩

/-- One way to write bindings. -/
def plainText : BindingText where
  text
    | .repository repo branch path =>
      String.ofList
        ('r' :: (marked repo ++ 'y' :: (marked branch ++ 'y' :: (marked path ++ ['y']))))
    | .localDirectory directory => String.ofList ('l' :: (marked directory ++ ['y']))
  injective := by
    intro a b h
    cases a <;> cases b <;>
      simp only [String.ofList_inj, List.cons.injEq, Char.reduceEq, false_and, true_and] at h
    case repository.repository =>
      obtain ⟨hrepo, hrest⟩ := marked_inj h
      obtain ⟨hbranch, hrest⟩ := marked_inj hrest
      obtain ⟨hpath, -⟩ := marked_inj hrest
      rw [hrepo, hbranch, hpath]
    case localDirectory.localDirectory =>
      obtain ⟨hdirectory, -⟩ := marked_inj h
      rw [hdirectory]
  ne_empty := by
    intro source
    cases source <;> simp [String.ofList_eq_empty_iff]

def declared : Resource RootSpec RootState where
  name := "root"
  spec := { host := "h", path := "p", source := "s" }
  state := .bound { binding := none, applied := none, sourceError := none, sourceFailedAt := none }
  since := 0
  version := 1

def refusingPass (revision : String) : Applied where
  revision
  complete := true
  reached := .ofList ["a"] compare
  baselines := ∅
  refusals := .ofList [("a", "bad")] compare
  removals := ∅

/-- A root after an edge that its home accepts. -/
def fired (r : Resource RootSpec RootState) (edge : RootEdge) (now : Timestamp) (version : Nat) :
    Resource RootSpec RootState :=
  match root.decide r edge () now with
  | .ok moved => r.commit moved version now
  | .error _ => r

theorem TimedRun.fired {start r : Resource RootSpec RootState} (run : TimedRun root start edges r)
    (edge : RootEdge) (now : Timestamp) (h : (root.decide r edge () now).toOption.isSome = true)
    (version : Nat) : TimedRun root start (edges ++ [(edge, now)]) (fired r edge now version) := by
  unfold Manifest.fired
  cases hd : root.decide r edge () now with
  | ok moved => exact .snoc run () now version hd
  | error e =>
    rw [hd] at h
    cases h

/-- The second pass records the refusal again, and the refusal keeps its time. -/
theorem root_follows_rules_refused_twice :
    ∃ r, TimedRun root declared
        ([] ++ [(.applied (refusingPass "1"), 5)] ++ [(.applied (refusingPass "2"), 9)]) r ∧
      r.spec.refusals["a"]? = some ⟨"bad", 5⟩ ∧
      Standing [(refusingPass "1", 5), (refusingPass "2", 9)] "a" "bad" 5 := by
  have hnil : TimedRun root declared [] declared := .nil
  have hfirst := TimedRun.fired hnil (.applied (refusingPass "1")) 5 (by decide +kernel) 2
  have hsecond := TimedRun.fired hfirst (.applied (refusingPass "2")) 9 (by decide +kernel) 3
  have hadmitted : Admitted root ⟨"h", "p", "s", none⟩ declared :=
    .intro "root" () 0 1 _ _ rfl rfl
  have hlookup : (fired (fired declared (.applied (refusingPass "1")) 5 2)
      (.applied (refusingPass "2")) 9 3).spec.refusals["a"]? = some ⟨"bad", 5⟩ := by decide +kernel
  exact ⟨_, hsecond, hlookup,
    (root_follows_rules plainText hadmitted hsecond).2.2.2 "a" ⟨"bad", 5⟩ hlookup⟩

end Flotilla.Manifest
