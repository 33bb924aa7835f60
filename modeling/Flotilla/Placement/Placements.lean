import Flotilla.Lifecycle
import Flotilla.Placement.Ledger

/-!
# Placements

The ledger and the home of the vessels together.  A request waits at the ledger
only; placing it creates the vessel resource, whose spec is the lease, and the
lease is freed when the vessel's lifecycle ends.  A restart builds the ledger
again from the live vessels of the home.

* `run_agrees` : in every run that starts with nothing unplaced the ledger's leases
  are the live leases of the home, and building the ledger again, in any order,
  places them all and leaves the same capacity available.
-/

namespace Flotilla.Placement

open Lib Std
open Engine
open Lifecycle (LifecycleState LifecycleEdge LifecycleWorld lifecycle)
open Attempt (AttemptPolicy)

/-! ### Vessels -/

/-- A granted lease as the vessel's spec. -/
structure VesselSpec where
  convoy : ConvoyId
  vesselClass : VesselClass
  shape : Units
  priority : Nat
  host : Host

namespace VesselSpec

/-- The lease the vessel was created with. -/
def lease (spec : VesselSpec) : Lease where
  request := {
    convoy := spec.convoy, vesselClass := spec.vesselClass, shape := spec.shape
    priority := spec.priority }
  host := spec.host

/-- `VesselSpec::from`. -/
def ofLease (lease : Lease) : VesselSpec where
  convoy := lease.request.convoy
  vesselClass := lease.request.vesselClass
  shape := lease.request.shape
  priority := lease.request.priority
  host := lease.host

end VesselSpec

abbrev VesselResource := Resource VesselSpec LifecycleState

abbrev VesselHome (L : Type) := Home L VesselSpec LifecycleState

abbrev VesselLog (L : Type) :=
  Log L VesselSpec LifecycleState Lifecycle.LifecycleLabel LifecycleEdge Empty

abbrev VesselWriteError :=
  WriteError Lifecycle.LifecycleLabel LifecycleEdge Lifecycle.LifecycleRefusal

/-- Each live vessel with its lease, by the vessel's name. -/
def liveLeases (vessels : List VesselResource) : List (VesselId × Lease) :=
  (vessels.filter fun vessel => vessel.state.live).map
    fun vessel => (vessel.name, vessel.spec.lease)

/-- The resources of a home. -/
def vesselsOf {L : Type} (home : VesselHome L) : List VesselResource :=
  home.resources.toList.map Prod.snd

/-! ### Placement at one home -/

inductive PlacementError where
  | ledger (error : LedgerError)
  | write (error : VesselWriteError)

structure Placements (L : Type) where
  ledger : Ledger
  home : VesselHome L

namespace Placements

/-- The hosts of a new ledger. -/
def addHosts (l : Ledger) : List (Host × Units) → Except LedgerError Ledger
  | [] => .ok l
  | (host, capacity) :: hosts =>
    match l.addHost host capacity with
    | (.error error, _) => .error error
    | (.ok (), l) => addHosts l hosts

/-- Puts leases back; those that do not fit are returned with the reason. -/
def restoreAll (l : Ledger) :
    List (VesselId × Lease) → Ledger × List (VesselId × LedgerError)
  | [] => (l, [])
  | (id, lease) :: leases =>
    match l.restore id lease with
    | (.ok (), l) => restoreAll l leases
    | (.error error, l) =>
      ((restoreAll l leases).1, (id, error) :: (restoreAll l leases).2)

variable {L : Type}

/-- Placement over `hosts`, with the leases of the live ones among `vessels` put back. -/
def rebuild (home : VesselHome L) (vessels : List VesselResource) (hosts : List (Host × Units)) :
    Except LedgerError (Placements L × List (VesselId × LedgerError)) := do
  let ledger ← addHosts {} hosts
  let restored := restoreAll ledger (liveLeases vessels)
  return ({ ledger := restored.1, home }, restored.2)

/-- `Placements::new`: the home's vessels in the home's order. -/
def new (home : VesselHome L) (hosts : List (Host × Units)) :
    Except LedgerError (Placements L × List (VesselId × LedgerError)) :=
  rebuild home (vesselsOf home) hosts

/-- `MemoryLifecycleWorld::default`. -/
def noWorld : LifecycleWorld := ⟨fun _ => none, fun _ => none, fun _ => none⟩

variable (policy : AttemptPolicy) (log : VesselLog L) (p : Placements L)

/-- The vessel resource `id` names, once its lease is granted. -/
def get (id : VesselId) : Except PlacementError VesselResource :=
  okOr p.home.resources[id]? (.ledger (.unknownVessel id))

def addHost (host : Host) (capacity : Units) : Except PlacementError Unit × Placements L :=
  ((p.ledger.addHost host capacity).1.mapError .ledger,
    { p with ledger := (p.ledger.addHost host capacity).2 })

def request (id : VesselId) (request : Request) : Except PlacementError Unit × Placements L :=
  ((p.ledger.request id request).1.mapError .ledger,
    { p with ledger := (p.ledger.request id request).2 })

/-- Undoes a grant: the lease returns and the request waits again. -/
def undo (l : Ledger) (id : VesselId) (request : Request) (error : VesselWriteError) :
    PlacementError × Ledger :=
  match l.release id with
  | (.error error, l) => (.ledger error, l)
  | (.ok _, l) =>
    match l.request id request with
    | (.error error, l) => (.ledger error, l)
    | (.ok (), l) => (.write error, l)

def place (id : VesselId) (host : Host) (now : Timestamp) :
    Except PlacementError VesselResource × Placements L :=
  match p.ledger.place id host with
  | (.error error, ledger) => (.error (.ledger error), { p with ledger })
  | (.ok lease, ledger) =>
    match p.home.create (lifecycle policy) log id (VesselSpec.ofLease lease) noWorld now with
    | (.error error, home) =>
      let undone := undo ledger id lease.request error
      (.error undone.1, { ledger := undone.2, home })
    | (.ok _, home) => (get { ledger, home } id, { ledger, home })

def apply (id : VesselId) (edge : LifecycleEdge) (world : LifecycleWorld) (now : Timestamp) :
    Except PlacementError VesselResource × Placements L :=
  match p.home.apply (lifecycle policy) log id edge world now with
  | (.error error, home) => (.error (.write error), { p with home })
  | (.ok _, home) =>
    if home.resources[id]?.any fun vessel => ¬ vessel.state.live then
      match p.ledger.release id with
      | (.ok _, ledger) => (get { ledger, home } id, { ledger, home })
      | (.error (.unknownVessel _), ledger) => (get { ledger, home } id, { ledger, home })
      | (.error error, ledger) => (.error (.ledger error), { ledger, home })
    else (get { p with home } id, { p with home })

end Placements

/-- What placements are asked to do. -/
inductive PlacementCall where
  | setCaps (convoy : ConvoyId) (quota : Quota)
  | setCap (convoy : ConvoyId) (vesselClass : VesselClass) (cap : U32)
  | addHost (host : Host) (capacity : Units)
  | request (id : VesselId) (request : Request)
  | place (id : VesselId) (host : Host) (now : Timestamp)
  | apply (id : VesselId) (edge : LifecycleEdge) (world : LifecycleWorld) (now : Timestamp)

namespace Placements

variable {L : Type} (policy : AttemptPolicy) (log : VesselLog L)

def call (p : Placements L) : PlacementCall → Placements L
  | .setCaps convoy quota => { p with ledger := p.ledger.setCaps convoy quota }
  | .setCap convoy vesselClass cap => { p with ledger := p.ledger.setCap convoy vesselClass cap }
  | .addHost host capacity => (p.addHost host capacity).2
  | .request id request => (p.request id request).2
  | .place id host now => (p.place policy log id host now).2
  | .apply id edge world now => (p.apply policy log id edge world now).2

def run (p : Placements L) (calls : List PlacementCall) : Placements L :=
  calls.foldl (call policy log) p

/-! ### The ledger and the home agree -/

/-- Every resource of the home is stored under its own name. -/
def Keyed (home : VesselHome L) : Prop :=
  ∀ (name : String) (r : VesselResource), home.resources[name]? = some r → r.name = name

/-- The ledger's leases are those of the home's live vessels. -/
structure Agrees (p : Placements L) : Prop where
  fitting : Ledger.Fitting p.ledger
  keyed : Keyed p.home
  leases : ∀ (id : VesselId) (lease : Lease), p.ledger.vessels[id]? = some (.leased lease) ↔
    ∃ r, p.home.resources[id]? = some r ∧ r.state.live = true ∧ r.spec.lease = lease

variable {p : Placements L} {T l : Ledger} {home : VesselHome L} {host : Host}
  {hosts : List (Host × Units)} {id : VesselId} {lease : Lease} {leases : List (VesselId × Lease)}
  {vessels : List VesselResource}

theorem mem_liveLeases (hkeyed : Keyed home) (hvessels : vessels.Perm (vesselsOf home)) :
    (id, lease) ∈ liveLeases vessels ↔
      ∃ r, home.resources[id]? = some r ∧ r.state.live = true ∧ r.spec.lease = lease := by
  simp only [liveLeases, List.mem_map, List.mem_filter, hvessels.mem_iff, vesselsOf, Prod.exists,
    ExtTreeMap.mem_toList_iff_getElem?_eq_some, Prod.mk.injEq]
  constructor
  · rintro ⟨r, ⟨⟨name, _, hr, rfl⟩, hlive⟩, rfl, hlease⟩
    exact ⟨_, hkeyed name _ hr ▸ hr, hlive, hlease⟩
  · rintro ⟨r, hr, hlive, hlease⟩
    exact ⟨r, ⟨⟨id, r, hr, rfl⟩, hlive⟩, hkeyed id r hr, hlease⟩

/-! ### Putting leases back -/

theorem fitting_restoreAll (h : Ledger.Fitting l) (leases : List (VesselId × Lease)) :
    Ledger.Fitting (restoreAll l leases).1 := by
  induction leases generalizing l with
  | nil => exact h
  | cons entry leases ih =>
    obtain ⟨id, lease⟩ := entry
    have hstep := h.apply (.restore id lease)
    rw [Ledger.apply] at hstep
    rw [restoreAll]
    split
    · rename_i l' hrestore
      rw [hrestore] at hstep
      exact ih hstep
    · rename_i error l' hrestore
      rw [hrestore] at hstep
      exact ih hstep

/-- When nothing is left unplaced, the leases were all put in. -/
theorem lookup_restoreAll (h : (restoreAll l leases).2 = []) :
    (restoreAll l leases).1.hosts = l.hosts ∧
      ∀ (id : VesselId) (vessel : Vessel), (restoreAll l leases).1.vessels[id]? = some vessel ↔
        l.vessels[id]? = some vessel ∨ ∃ lease, vessel = .leased lease ∧ (id, lease) ∈ leases := by
  induction leases generalizing l with
  | nil => exact ⟨rfl, by simp [restoreAll]⟩
  | cons entry leases ih =>
    obtain ⟨id, lease⟩ := entry
    have hout := Ledger.outcome_restore (l := l) id lease
    rw [restoreAll] at h ⊢
    generalize l.restore id lease = changed at h hout ⊢
    cases hout with
    | refused => cases h
    | accepted _ heffect =>
      cases heffect with
      | restore hnew _ =>
        obtain ⟨hhosts, hvessels⟩ := ih h
        refine ⟨hhosts, fun id' vessel => (hvessels id' vessel).trans ?_⟩
        rw [Ledger.put, BTreeMap.lookup_insert_new hnew, or_assoc]
        refine or_congr_right ?_
        simp only [List.mem_cons, Prod.mk.injEq, and_or_left, exists_or]
        refine or_congr_left ⟨?_, ?_⟩
        · rintro ⟨rfl, rfl⟩
          exact ⟨lease, rfl, rfl, rfl⟩
        · rintro ⟨_, rfl, rfl, rfl⟩
          exact ⟨rfl, rfl⟩

/-- Every vessel of the one ledger is one of the other, as it is there. -/
def Sub (l T : Ledger) : Prop :=
  ∀ (id : VesselId) (vessel : Vessel), l.vessels[id]? = some vessel → T.vessels[id]? = some vessel

theorem Sub.exists_rest (h : Sub l T) :
    ∃ rest, T.vessels.toList.Perm (rest ++ l.vessels.toList) := by
  have hsubset : l.vessels.toList ⊆ T.vessels.toList := by
    rintro ⟨id, vessel⟩ hmem
    rw [ExtTreeMap.mem_toList_iff_getElem?_eq_some] at hmem ⊢
    exact h id vessel hmem
  obtain ⟨part, hpart, hsublist⟩ := (BTreeMap.nodup_toList l.vessels).subperm hsubset
  obtain ⟨rest, hrest⟩ := hsublist.exists_perm_append
  exact ⟨rest, hrest.trans ((hpart.append_right rest).trans List.perm_append_comm)⟩

/-- There is room for fewer leases. -/
theorem Sub.room (h : Sub l T) {capacity : Units}
    (hroom : Capacity.Room capacity (T.entriesOn host)) :
    Capacity.Room capacity (l.entriesOn host) := by
  obtain ⟨rest, hrest⟩ := h.exists_rest
  have hperm := hrest.flatMap_right fun entry => Ledger.entriesOf host entry.2
  rw [List.flatMap_append] at hperm
  exact (hroom.perm hperm).of_append

theorem restore_of_sub (hT : Ledger.Fitting T) (hhosts : l.hosts = T.hosts) (hnew : id ∉ l.vessels)
    (hsub : Sub (l.put id (.leased lease)) T) :
    l.restore id lease = (.ok (), l.put id (.leased lease)) := by
  have hleased : T.vessels[id]? = some (.leased lease) :=
    hsub id _ ExtTreeMap.getElem?_insert_self
  have hknown := hT.known id lease hleased
  rw [ExtTreeMap.mem_iff_isSome_getElem?, Option.isSome_iff_exists] at hknown
  obtain ⟨capacity, hcapacity⟩ := hknown
  have havailable : (l.put id (.leased lease)).available lease.host = .ok _ :=
    Ledger.available_iff.mpr ⟨capacity, (congrArg (·[lease.host]?) hhosts).trans hcapacity,
      hsub.room (hT.room lease.host capacity hcapacity), rfl⟩
  rw [Ledger.restore, if_neg hnew]
  dsimp only
  rw [show ({ l with vessels := l.vessels.insert id (.leased lease) } : Ledger) =
    l.put id (.leased lease) from rfl, havailable]

/-- Leases that a ledger holds can be put back in any order. -/
theorem restoreAll_of_sub (hT : Ledger.Fitting T) (hhosts : l.hosts = T.hosts) (hsub : Sub l T)
    (hids : (leases.map Prod.fst).Nodup) (hnew : ∀ entry ∈ leases, entry.1 ∉ l.vessels)
    (hleased : ∀ entry ∈ leases, T.vessels[entry.1]? = some (.leased entry.2)) :
    (restoreAll l leases).2 = [] := by
  induction leases generalizing l with
  | nil => rfl
  | cons entry leases ih =>
    obtain ⟨id, lease⟩ := entry
    have hnewid := hnew (id, lease) List.mem_cons_self
    have hput : Sub (l.put id (.leased lease)) T :=
      BTreeMap.forall_insert (hleased (id, lease) List.mem_cons_self)
        fun id' vessel _ => hsub id' vessel
    rw [List.map_cons, List.nodup_cons] at hids
    rw [restoreAll, restore_of_sub hT hhosts hnewid hput]
    refine ih hhosts hput hids.2 ?_ fun entry hentry =>
      hleased entry (List.mem_cons_of_mem _ hentry)
    exact BTreeMap.forall_not_mem_insert hids.1 (List.forall_mem_cons.mp hnew).2

/-- **Ledgers with the same hosts and leases have the same capacity available.** -/
theorem available_of_leases (hT : Ledger.Fitting T) (hhosts : l.hosts = T.hosts) (hsub : Sub l T)
    (hall : ∀ (id : VesselId) (lease : Lease), T.vessels[id]? = some (.leased lease) →
      l.vessels[id]? = some (.leased lease)) (host : Host) :
    l.available host = T.available host := by
  cases hhost : T.hosts[host]? with
  | none =>
    rw [Ledger.available_eq, Ledger.available_eq, hhosts, hhost]
    rfl
  | some capacity =>
    have hroom := hT.room host capacity hhost
    rw [Ledger.available_iff.mpr ⟨capacity, hhost, hroom, rfl⟩]
    refine Ledger.available_iff.mpr
      ⟨capacity, (congrArg (·[host]?) hhosts).trans hhost, hsub.room hroom, ?_⟩
    -- what the larger ledger has more waits, and holds nothing
    obtain ⟨rest, hrest⟩ := hsub.exists_rest
    have hnodup := hrest.nodup_iff.mp (BTreeMap.nodup_toList T.vessels)
    have hnone : rest.flatMap (fun entry => Ledger.entriesOf host entry.2) = [] := by
      rw [List.flatMap_eq_nil_iff]
      rintro ⟨id, vessel⟩ hmem
      cases vessel with
      | waiting request => rfl
      | leased lease =>
        have hin : (id, Vessel.leased lease) ∈ T.vessels.toList :=
          hrest.mem_iff.mpr (List.mem_append_left _ hmem)
        rw [ExtTreeMap.mem_toList_iff_getElem?_eq_some] at hin
        have hmem' := ExtTreeMap.mem_toList_iff_getElem?_eq_some.mpr (hall id lease hin)
        exact absurd hmem' (List.disjoint_of_nodup_append hnodup hmem)
    have hperm := hrest.flatMap_right fun entry => Ledger.entriesOf host entry.2
    rw [List.flatMap_append, hnone] at hperm
    exact Capacity.remaining_perm hperm

/-! ### Hosts in any order -/

theorem addHosts_eq (hnames : (hosts.map Prod.fst).Nodup)
    (hnew : ∀ entry ∈ hosts, entry.1 ∉ l.hosts) :
    ∃ l', addHosts l hosts = .ok l' ∧ l'.vessels = l.vessels ∧
      ∀ (host : Host) (capacity : Units), l'.hosts[host]? = some capacity ↔
        l.hosts[host]? = some capacity ∨ (host, capacity) ∈ hosts := by
  induction hosts generalizing l with
  | nil => exact ⟨l, rfl, rfl, by simp⟩
  | cons entry hosts ih =>
    obtain ⟨host, capacity⟩ := entry
    have hfree := hnew (host, capacity) List.mem_cons_self
    rw [List.map_cons, List.nodup_cons] at hnames
    obtain ⟨l', hl', hvessels, hlookup⟩ :=
      ih (l := { l with hosts := l.hosts.insert host capacity })
      hnames.2 (BTreeMap.forall_not_mem_insert hnames.1 (List.forall_mem_cons.mp hnew).2)
    refine ⟨l', ?_, hvessels, fun host' capacity' => (hlookup host' capacity').trans ?_⟩
    · rw [addHosts, Ledger.addHost, if_neg hfree]
      exact hl'
    · rw [BTreeMap.lookup_insert_new hfree, or_assoc, List.mem_cons, Prod.mk.injEq]

/-! ### Steps -/

variable {policy : AttemptPolicy} {log : VesselLog L}

theorem Keyed.insert {home home' : VesselHome L} (h : Keyed home) {name : String}
    {r : VesselResource} (hput : home'.resources = home.resources.insert name r)
    (hname : r.name = name) : Keyed home' := by
  unfold Keyed
  rw [hput]
  exact BTreeMap.forall_insert hname fun name' r' _ => h name' r'

/-- A home reached by creates and edges is keyed. -/
theorem keyed_run (policy : AttemptPolicy) (log : VesselLog L) (l : L)
    (calls : List (Call VesselSpec LifecycleEdge LifecycleWorld)) :
    Keyed (Home.run (lifecycle policy) log l calls) := by
  induction calls using List.reverseRecOn with
  | nil => exact fun name r hr => by simp [Home.run] at hr
  | append_singleton calls last ih =>
    have hlast : Home.run (lifecycle policy) log l (calls ++ [last]) =
        Home.call (lifecycle policy) log (Home.run (lifecycle policy) log l calls) last := by
      simp [Home.run]
    rw [hlast]
    cases last with
    | create name request world now =>
      rcases Home.create_result log _ name request world now with
        ⟨_, -, hsame⟩ | ⟨spec, state, version, -, -, -, -, hput⟩
      · exact fun name r hr => ih name r (hsame ▸ hr)
      · exact ih.insert hput rfl
    | apply name edge world now =>
      rcases Home.apply_result log _ name edge world now with
        ⟨_, -, hsame⟩ | ⟨r, moved, version, _, hr, -, -, hput⟩
      · exact fun name r hr => ih name r (hsame ▸ hr)
      · exact ih.insert hput (ih name r hr)

/-- Only the ledger's hosts, caps and waiting requests changed. -/
theorem Agrees.of_leases (h : Agrees p) {ledger : Ledger} (hfitting : Ledger.Fitting ledger)
    (hleases : ∀ (id : VesselId) (lease : Lease),
      ledger.vessels[id]? = some (.leased lease) ↔ p.ledger.vessels[id]? = some (.leased lease)) :
    Agrees { p with ledger } :=
  ⟨hfitting, h.keyed, fun id lease => (hleases id lease).trans (h.leases id lease)⟩

theorem Agrees.of_resources (h : Agrees p) (hsame : home.resources = p.home.resources) :
    Agrees { p with home } := by
  refine ⟨h.fitting, fun name r hr => h.keyed name r (hsame ▸ hr), fun id lease => ?_⟩
  rw [hsame]
  exact h.leases id lease

/-- Undoing a grant leaves the ledger as it was. -/
theorem undo_eq (hgrants : Ledger.Grants l id lease) (error : VesselWriteError) :
    undo (l.put id (.leased lease)) id lease.request error = (.write error, l) := by
  have hleased : (l.put id (.leased lease)).vessels[id]? = some (.leased lease) :=
    ExtTreeMap.getElem?_insert_self
  have hfree : id ∉ (l.put id (.leased lease)).vessels.erase id := by simp
  have hback : (((l.put id (.leased lease)).vessels.erase id).insert id
      (.waiting lease.request)) = l.vessels := by
    rw [Ledger.put, BTreeMap.erase_insert, BTreeMap.insert_erase,
      BTreeMap.insert_eq_self hgrants.waits]
  rw [undo, Ledger.release, hleased]
  dsimp only
  rw [Ledger.request, if_neg hfree]
  rw [hback]
  rfl

/-- A placement fails and changes nothing, or leases and creates the vessel. -/
theorem place_cases (id : VesselId) (host : Host) (now : Timestamp) :
    (∃ error home, p.place policy log id host now = (.error error, { p with home }) ∧
      home.resources = p.home.resources ∧
      (Home.KeepsNothing log.createResource log → home = p.home)) ∨
    ∃ lease home r, Ledger.Grants p.ledger id lease ∧ p.place policy log id host now =
        (.ok r, { ledger := p.ledger.put id (.leased lease), home }) ∧
      home.resources = p.home.resources.insert id r ∧ r.name = id ∧ r.state.live = true ∧
      r.spec.lease = lease := by
  rw [Placements.place]
  rcases Ledger.place_eq id host with
    ⟨error, hplace⟩ | ⟨lease, hgrants, -, hplace⟩
  · rw [hplace]
    exact .inl ⟨_, p.home, rfl, rfl, fun _ => rfl⟩
  · rw [hplace]
    dsimp only
    rcases Home.createWith_cases (m := lifecycle policy) log.createResource p.home id
      (VesselSpec.ofLease lease) noWorld now with
      ⟨error, l, hcreate, hl⟩ | ⟨spec, state, r, l, hfree, hadmits, -, hlog, hcreate⟩
    · rw [Home.create, hcreate]
      dsimp only
      rw [undo_eq hgrants]
      exact .inl ⟨_, _, rfl, rfl, fun hkeeps => by rw [hkeeps.create_eq hl]⟩
    · obtain ⟨version, rfl⟩ := Home.createResource_ok log hlog
      cases hadmits
      rw [Home.create, hcreate]
      dsimp only
      rw [get, ExtTreeMap.getElem?_insert_self]
      exact .inr ⟨lease, _, _, hgrants, rfl, rfl, rfl, rfl, rfl⟩

theorem Agrees.place (h : Agrees p) (id : VesselId) (host : Host) (now : Timestamp) :
    Agrees (p.place policy log id host now).2 := by
  rcases place_cases id host now with
    ⟨_, _, hplace, hsame, -⟩ | ⟨lease, home, r, hgrants, hplace, hput, hname, hlive, hlease⟩
  · rw [hplace]
    exact h.of_resources hsame
  · rw [hplace]
    refine ⟨h.fitting.grant hgrants, h.keyed.insert hput hname, fun id' lease' => ?_⟩
    show (p.ledger.put id (.leased lease)).vessels[id']? = _ ↔
      ∃ r, home.resources[id']? = some r ∧ _
    rw [Ledger.put, ExtTreeMap.getElem?_insert, hput, ExtTreeMap.getElem?_insert]
    split_ifs with heq
    · simp [hlive, hlease]
    · exact h.leases id' lease'

theorem Agrees.apply (h : Agrees p) (id : VesselId) (edge : LifecycleEdge) (world : LifecycleWorld)
    (now : Timestamp) : Agrees (p.apply policy log id edge world now).2 := by
  rw [Placements.apply]
  have happly := Home.apply_result (m := lifecycle policy) log p.home id edge world now
  generalize p.home.apply (lifecycle policy) log id edge world now = applied at happly
  obtain ⟨result, home⟩ := applied
  rcases happly with ⟨error, hresult, hsame⟩ |
    ⟨r, ⟨next, writes⟩, version, event, hr, hdecide, hresult, hput⟩
  · cases hresult
    exact h.of_resources hsame
  · cases hresult
    cases writes with
    | cons write => exact write.elim
    | nil =>
      have hlive :=
        Lifecycle.live_of_moves ((Lifecycle.decide_iff r edge world now next).mp hdecide)
      have hname : r.name = id := h.keyed id r hr
      have hkeyed : Keyed home := h.keyed.insert hput hname
      have hlookup : home.resources[id]? =
          some (r.commit (next, ([] : List Empty)) version now) := by
        rw [hput, ExtTreeMap.getElem?_insert_self]
      have hleased : p.ledger.vessels[id]? = some (.leased r.spec.lease) :=
        (h.leases id r.spec.lease).mpr ⟨r, hr, hlive, rfl⟩
      dsimp only
      rw [hlookup]
      split_ifs with hended
      · -- the vessel is gone, and its lease with it
        have hrelease : p.ledger.release id = (.ok r.spec.lease, p.ledger.without id) := by
          rw [Ledger.release, hleased]
          rfl
        rw [hrelease]
        refine ⟨h.fitting.without id, hkeyed, fun id' lease => ?_⟩
        rw [Ledger.without, ExtTreeMap.getElem?_erase, hput, ExtTreeMap.getElem?_insert]
        split_ifs with heq
        · have hdead : next.live = false := by simpa [Resource.commit] using hended
          simp [Resource.commit, hdead]
        · exact h.leases id' lease
      · refine ⟨h.fitting, hkeyed, fun id' lease => ?_⟩
        rw [hput, ExtTreeMap.getElem?_insert]
        split_ifs with heq
        · have hnext : next.live = true := by simpa [Resource.commit] using hended
          obtain rfl := Std.compare_eq_iff_eq.mp heq
          have hcommit : (r.commit (next, ([] : List Empty)) version now).spec = r.spec := rfl
          simp only [hleased, Option.some.injEq, Vessel.leased.injEq, exists_eq_left', hcommit]
          exact ⟨fun hlease => ⟨hnext, hlease⟩, fun hlease => hlease.2⟩
        · exact h.leases id' lease

theorem Agrees.call (h : Agrees p) (c : PlacementCall) : Agrees (p.call policy log c) := by
  cases c with
  | setCaps convoy quota =>
    exact h.of_leases (h.fitting.apply (.setCaps convoy quota)) fun _ _ => Iff.rfl
  | setCap convoy vesselClass cap =>
    exact h.of_leases (h.fitting.apply (.setCap convoy vesselClass cap)) fun _ _ => Iff.rfl
  | addHost host capacity =>
    refine h.of_leases (h.fitting.apply (.addHost host capacity)) fun id lease => ?_
    rw [Ledger.addHost]
    split <;> exact Iff.rfl
  | request id request =>
    refine h.of_leases (h.fitting.apply (.request id request)) fun id' lease => ?_
    rw [Ledger.request]
    split_ifs with hnew
    · rfl
    · have hnone : p.ledger.vessels[id]? = none := ExtTreeMap.getElem?_eq_none hnew
      rw [ExtTreeMap.getElem?_insert]
      split_ifs with heq
      · rw [← Std.compare_eq_iff_eq.mp heq, hnone]
        simp
      · rfl
  | place id host now => exact h.place id host now
  | apply id edge world now => exact h.apply id edge world now

theorem Agrees.run (h : Agrees p) (calls : List PlacementCall) :
    Agrees (p.run policy log calls) := by
  induction calls generalizing p with
  | nil => exact h
  | cons c calls ih => exact ih (h.call c)

theorem fitting_addHosts {l l' : Ledger} (h : Ledger.Fitting l) (hadd : addHosts l hosts = .ok l') :
    Ledger.Fitting l' ∧ l'.vessels = l.vessels := by
  induction hosts generalizing l with
  | nil =>
    cases hadd
    exact ⟨h, rfl⟩
  | cons entry hosts ih =>
    obtain ⟨host, capacity⟩ := entry
    rw [addHosts, Ledger.addHost] at hadd
    split_ifs at hadd with hnew
    have hrest := ih (h.addHost hnew capacity) hadd
    exact hrest

/-- Nothing is left unplaced: the new ledger holds the live leases. -/
theorem agrees_of_new (hkeyed : Keyed home) (hnew : new home hosts = .ok (p, [])) : Agrees p := by
  obtain ⟨l, hl, hnew⟩ := bind_eq_ok hnew
  obtain ⟨hp, hunplaced⟩ := Prod.mk.inj (Except.ok.inj hnew)
  subst hp
  obtain ⟨hfitting, hvessels⟩ := fitting_addHosts Ledger.fitting_new hl
  obtain ⟨-, hlookup⟩ := lookup_restoreAll hunplaced
  refine ⟨fitting_restoreAll hfitting _, hkeyed, fun id lease => (hlookup id _).trans ?_⟩
  rw [hvessels]
  simp only [ExtTreeMap.getElem?_empty, reduceCtorEq, false_or, Vessel.leased.injEq,
    exists_eq_left']
  exact mem_liveLeases hkeyed (List.Perm.refl _)

/-- The names of the live leases of a home are distinct. -/
theorem nodup_liveLeases (hkeyed : Keyed home) (hvessels : vessels.Perm (vesselsOf home)) :
    ((liveLeases vessels).map Prod.fst).Nodup := by
  have hnames : (vessels.map Resource.name).Nodup := by
    rw [(hvessels.map _).nodup_iff, vesselsOf, List.map_map]
    have hkeys : home.resources.toList.map (Resource.name ∘ Prod.snd) =
        home.resources.toList.map Prod.fst := by
      refine List.map_congr_left ?_
      rintro ⟨name, r⟩ hmem
      exact hkeyed name r (ExtTreeMap.mem_toList_iff_getElem?_eq_some.mp hmem)
    rw [hkeys, ExtTreeMap.map_fst_toList_eq_keys]
    exact ExtTreeMap.nodup_keys
  rw [liveLeases, List.map_map]
  exact hnames.sublist (List.filter_sublist.map _)

/-- **Building the ledger again places every live lease and leaves the same capacity.** -/
theorem Agrees.rebuild (h : Agrees p) (hhosts : hosts.Perm p.ledger.hosts.toList)
    (hvessels : vessels.Perm (vesselsOf p.home)) :
    ∃ q, Placements.rebuild p.home vessels hosts = .ok (q, []) ∧
      ∀ host, q.ledger.available host = p.ledger.available host := by
  have hnames : (hosts.map Prod.fst).Nodup := by
    rw [(hhosts.map _).nodup_iff, ExtTreeMap.map_fst_toList_eq_keys]
    exact ExtTreeMap.nodup_keys
  obtain ⟨l, hl, hempty, hlookup⟩ := addHosts_eq (l := {}) hnames (by simp)
  have hsame : l.hosts = p.ledger.hosts := by
    apply ExtTreeMap.ext_getElem?
    intro host
    refine Option.ext fun capacity => ?_
    rw [hlookup, hhosts.mem_iff, ExtTreeMap.mem_toList_iff_getElem?_eq_some]
    simp
  have hlive : ∀ entry ∈ liveLeases vessels,
      p.ledger.vessels[entry.1]? = some (.leased entry.2) := by
    rintro ⟨id, lease⟩ hentry
    exact (h.leases id lease).mpr ((mem_liveLeases h.keyed hvessels).mp hentry)
  have hnone : (restoreAll l (liveLeases vessels)).2 = [] := by
    refine restoreAll_of_sub h.fitting hsame ?_ (nodup_liveLeases h.keyed hvessels) ?_ hlive
    · intro id vessel hvessel
      rw [hempty] at hvessel
      simp at hvessel
    · intro entry _ hmem
      rw [hempty] at hmem
      simp at hmem
  obtain ⟨hhosts', hvessels'⟩ := lookup_restoreAll hnone
  refine ⟨{ ledger := (restoreAll l (liveLeases vessels)).1, home := p.home }, ?_, ?_⟩
  · rw [Placements.rebuild, bind_ok hl]
    show Except.ok (_, (restoreAll l (liveLeases vessels)).2) = _
    rw [hnone]
  · refine available_of_leases h.fitting (hhosts'.trans hsame) ?_ ?_
    · intro id vessel hvessel
      rcases (hvessels' id vessel).mp hvessel with hvessel | ⟨lease, rfl, hmem⟩
      · rw [hempty] at hvessel
        simp at hvessel
      · exact hlive (id, lease) hmem
    · intro id lease hleased
      refine (hvessels' id _).mpr (.inr ⟨lease, rfl, ?_⟩)
      exact (mem_liveLeases h.keyed hvessels).mpr ((h.leases id lease).mp hleased)

theorem mem_leases : (id, lease) ∈ l.leases ↔ l.vessels[id]? = some (.leased lease) := by
  rw [Ledger.leases, List.mem_filterMap, ← ExtTreeMap.mem_toList_iff_getElem?_eq_some]
  constructor
  · rintro ⟨⟨id', vessel⟩, hmem, hentry⟩
    cases vessel with
    | waiting request => cases hentry
    | leased lease' =>
      cases hentry
      exact hmem
  · intro hmem
    exact ⟨(id, .leased lease), hmem, rfl⟩

/-- **The ledger's leases are the live leases of the home's vessels, and building the ledger again
from them, in any order, places them all and leaves the same capacity available.** -/
theorem run_agrees (policy : AttemptPolicy) (log : VesselLog L) {home : VesselHome L}
    (hkeyed : Keyed home) {hosts : List (Host × Units)} (hnew : new home hosts = .ok (p, []))
    (calls : List PlacementCall) :
    (∀ id lease, (id, lease) ∈ (p.run policy log calls).ledger.leases ↔
      (id, lease) ∈ liveLeases (vesselsOf (p.run policy log calls).home)) ∧
    ∀ (hosts' : List (Host × Units)) (vessels : List VesselResource),
      hosts'.Perm (p.run policy log calls).ledger.hosts.toList →
      vessels.Perm (vesselsOf (p.run policy log calls).home) →
      ∃ q, rebuild (p.run policy log calls).home vessels hosts' = .ok (q, []) ∧
        ∀ host, q.ledger.available host = (p.run policy log calls).ledger.available host := by
  have hagrees : Agrees (p.run policy log calls) := (agrees_of_new hkeyed hnew).run calls
  refine ⟨fun id lease => ?_, fun hosts' vessels hhosts hvessels => hagrees.rebuild hhosts hvessels⟩
  rw [mem_leases, mem_liveLeases hagrees.keyed (List.Perm.refl _)]
  exact hagrees.leases id lease

/-- A log that takes everything. -/
def takesAll : VesselLog Nat where
  create n _ := (.ok n, n + 1)
  edgeWithWrites n _ _ _ _ := (.ok n, n + 1)

/-- Placement over a home with no vessels and no hosts yet. -/
def started : Placements Nat := { ledger := {}, home := ⟨∅, 0⟩ }

/-- A vessel is placed on a host that joined later. -/
def placeOne : List PlacementCall :=
  let small : Request :=
    { convoy := "survey", vesselClass := "small", shape := ExtTreeMap.ofList [(0, 3)] compare,
      priority := 1 }
  [.addHost "dock" (ExtTreeMap.ofList [(0, 4)] compare),
    .setCap "survey" "small" ⟨1, one_lt_u32Count⟩,
    .request "v1" small, .place "v1" "dock" 5]

def oneTry : AttemptPolicy := ⟨⟨1, one_lt_u32Count⟩, 0, ⟨1, one_lt_u32Count⟩, 0⟩

theorem run_agrees_placeOne :
    (started.run oneTry takesAll placeOne).ledger.leases.length = 1 ∧
    (∀ id lease, (id, lease) ∈ (started.run oneTry takesAll placeOne).ledger.leases ↔
      (id, lease) ∈ liveLeases (vesselsOf (started.run oneTry takesAll placeOne).home)) ∧
    ∃ q, rebuild (started.run oneTry takesAll placeOne).home
        (vesselsOf (started.run oneTry takesAll placeOne).home).reverse
        (started.run oneTry takesAll placeOne).ledger.hosts.toList.reverse = .ok (q, []) ∧
      ∀ host, q.ledger.available host =
        (started.run oneTry takesAll placeOne).ledger.available host := by
  have hkeyed : Keyed started.home := keyed_run oneTry takesAll 0 []
  have hnew : new started.home [] = .ok (started, []) := rfl
  obtain ⟨hleases, hrebuild⟩ := run_agrees oneTry takesAll hkeyed hnew placeOne
  exact ⟨by decide +kernel, hleases, hrebuild _ _ (List.reverse_perm _) (List.reverse_perm _)⟩

/-! ### Failed calls -/

/-- Neither the ledger nor a vessel resource changed, nor the log if it keeps nothing of what it
refuses. -/
def Unchanged (log : VesselLog L) (p q : Placements L) : Prop :=
  q.ledger = p.ledger ∧ q.home.resources = p.home.resources ∧
    (Home.KeepsNothing log.createResource log → q.home = p.home)

/-- The home takes the edge and its vessel ends by it, while a request waits under its name. -/
def EndsWaiting (policy : AttemptPolicy) (log : VesselLog L) (p : Placements L) (id : VesselId)
    (edge : LifecycleEdge) (world : LifecycleWorld) (now : Timestamp) : Prop :=
  (∃ request, p.ledger.vessels[id]? = some (.waiting request)) ∧
    ∃ r moved version l, Home.Accepts log (lifecycle policy) p.home id edge world now r moved
      version l ∧ moved.1.live = false

theorem place_unchanged {now : Timestamp} {error : PlacementError}
    (h : (p.place policy log id host now).1 = .error error) :
    Unchanged log p (p.place policy log id host now).2 := by
  rcases place_cases id host now with ⟨_, _, hplace, hsame⟩ | ⟨_, _, _, _, hplace, _⟩
  · rw [hplace]
    exact ⟨rfl, hsame⟩
  · rw [hplace] at h
    cases h

/-- A failed edge changes nothing, unless it ended a vessel whose name waits at the ledger. -/
theorem apply_unchanged_iff (id : VesselId) (edge : LifecycleEdge) (world : LifecycleWorld)
    (now : Timestamp) :
    (∀ error, (p.apply policy log id edge world now).1 = .error error →
      Unchanged log p (p.apply policy log id edge world now).2) ↔
        ¬ EndsWaiting policy log p id edge world now := by
  rw [Placements.apply]
  rcases Home.apply_cases log p.home id edge world now with
    ⟨error, l, happly, hl, hnone⟩ | ⟨r, moved, version, l, event, haccepts, happly⟩
  · rw [happly]
    exact iff_of_true (fun _ _ => ⟨rfl, rfl, fun hkeeps => by rw [hkeeps.edge_eq hl]⟩)
      fun ⟨_, r, moved, version, l, h, _⟩ => hnone r moved version l h
  · rw [happly]
    have hlookup : (p.home.resources.insert id (r.commit moved version now))[id]? =
        some (r.commit moved version now) := ExtTreeMap.getElem?_insert_self
    have hends : EndsWaiting policy log p id edge world now ↔
        (∃ request, p.ledger.vessels[id]? = some (.waiting request)) ∧ moved.1.live = false := by
      refine and_congr_right fun _ => ⟨?_, fun h => ⟨r, moved, version, l, haccepts, h⟩⟩
      rintro ⟨r', moved', version', l', h, hdead⟩
      cases haccepts.held.symm.trans h.held
      cases haccepts.decided.symm.trans h.decided
      exact hdead
    have hstate : (r.commit moved version now).state = moved.1 := rfl
    rw [hends]
    simp only [hlookup, Option.any_some, get, okOr, hstate]
    cases hlive : moved.1.live with
    | true => simp
    | false =>
      rw [Ledger.release]
      rcases hheld : p.ledger.vessels[id]? with _ | request | lease
      · simp
      · -- the edge is written, and the waiting request is no lease to release
        simp only [Bool.false_eq_true, not_false_eq_true, decide_true, if_true,
          Vessel.waiting.injEq,
          Option.some.injEq, exists_eq', true_and, not_true_eq_false, iff_false]
        intro h
        have hsame : p.home.resources.insert id (r.commit moved version now) = p.home.resources :=
          (h _ rfl).2.1
        have hr := haccepts.held
        rw [← hsame, hlookup] at hr
        have hlive' := Lifecycle.live_of_moves
          ((Lifecycle.decide_iff r edge world now moved.1).mp (by
            obtain ⟨next, writes⟩ := moved
            cases writes with
            | nil => exact haccepts.decided
            | cons write => exact write.elim))
        rw [← Option.some.inj hr, hstate, hlive] at hlive'
        cases hlive'
      · simp

/-- **Failed calls**: a failed placement changes nothing, and a failed edge changes nothing
unless it ended a vessel whose name waits at the ledger. -/
theorem failed_unchanged_iff (policy : AttemptPolicy) (log : VesselLog L) (p : Placements L)
    (id : VesselId) (now : Timestamp) :
    (∀ host error, (p.place policy log id host now).1 = .error error →
      Unchanged log p (p.place policy log id host now).2) ∧
    ∀ edge world, (∀ error, (p.apply policy log id edge world now).1 = .error error →
      Unchanged log p (p.apply policy log id edge world now).2) ↔
        ¬ EndsWaiting policy log p id edge world now :=
  ⟨fun _ _ => place_unchanged, fun edge world => apply_unchanged_iff id edge world now⟩

/-- The home of a vessel whose host is gone. -/
def stranded : VesselHome Nat :=
  ⟨ExtTreeMap.ofList [("v1", ⟨"v1", ⟨"survey", "small", ∅, 1, "dock"⟩, .requested 0 none, 0, 0⟩)]
    compare, 1⟩

/-- The vessel's name is requested again; then its teardown is written and reported as failed. -/
theorem release_fails_after_write :
    let again := (⟨{}, stranded⟩ : Placements Nat).request "v1" ⟨"survey", "small", ∅, 1⟩
    let world : LifecycleWorld := { noWorld with teardown := fun _ => some true }
    let out := again.2.apply oneTry takesAll "v1" (.release "t") world 7
    ((new stranded []).toOption.map fun built => built.2.map Prod.fst) = some ["v1"] ∧
      out.1.toOption.isNone = true ∧
      again.2.home.resources["v1"]?.map (fun r => r.state.live) = some true ∧
      out.2.home.resources["v1"]?.map (fun r => r.state.live) = some false := by
  decide +kernel

end Placements

end Flotilla.Placement
