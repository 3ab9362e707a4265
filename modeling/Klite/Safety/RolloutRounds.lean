import Mathlib.Data.Finset.Dedup
import Mathlib.Data.Finset.Order
import Klite.Safety.RolloutPass

/-!
# Rollouts converge

A round is a pass of the workload controller, then what the rest of the cluster does to the
instances, then the wait for the drain deadlines.
-/

namespace Klite
open Lib

/-! ## The machine on three numbers -/

@[ext]
structure Tally where
  fresh : ℕ
  retiring : ℕ
  draining : ℕ
  deriving DecidableEq

namespace Tally
variable (r : ℕ) (x : Tally)

/- One round: the draining instances go, and one of scale-down, refill, surge and retirement is done. -/
def next : Tally :=
  if r < x.fresh then ⟨r, x.retiring, x.fresh - r⟩
  else if x.fresh + x.retiring < r then ⟨r - x.retiring, x.retiring, 0⟩
  else if x.retiring = 0 ∨ 0 < x.draining then ⟨x.fresh, x.retiring, 0⟩
  else if x.fresh + x.retiring = r then ⟨x.fresh + 1, x.retiring, 0⟩
  else ⟨x.fresh, x.retiring - 1, 1⟩

section Next
variable {r x}

theorem next_missing (hm : x.fresh + x.retiring < r) : x.next r = ⟨r - x.retiring, x.retiring, 0⟩ := by
  unfold next
  rw [if_neg (by omega), if_pos hm]

theorem next_wait (hs : ¬ r < x.fresh) (hm : ¬ x.fresh + x.retiring < r) (hw : x.retiring = 0 ∨ 0 < x.draining) :
    x.next r = ⟨x.fresh, x.retiring, 0⟩ := by
  unfold next
  rw [if_neg hs, if_neg hm, if_pos hw]

theorem next_roll (hs : ¬ r < x.fresh) (hm : ¬ x.fresh + x.retiring < r) (hw : ¬ (x.retiring = 0 ∨ 0 < x.draining)) :
    x.next r = if x.fresh + x.retiring = r then ⟨x.fresh + 1, x.retiring, 0⟩ else ⟨x.fresh, x.retiring - 1, 1⟩ := by
  unfold next
  rw [if_neg hs, if_neg hm, if_neg hw]

end Next

/- How many rounds are left at most: each retiring instance takes a surge, its retirement and its drain. -/
def left : ℕ :=
  if r < x.fresh ∨ x.fresh + x.retiring < r then 3 * x.retiring + 2
  else 3 * x.retiring + (if 0 < x.draining then 1 else 0) + (if 0 < x.retiring ∧ x.fresh + x.retiring = r then 1 else 0)

theorem left_next : (x.next r).left r ≤ x.left r - 1 := by
  obtain ⟨fresh, retiring, draining⟩ := x
  unfold next left
  dsimp only
  split_ifs
  all_goals dsimp only at *; omega

theorem left_eq_zero (h : x.left r = 0) : x = ⟨r, 0, 0⟩ := by
  obtain ⟨fresh, retiring, draining⟩ := x
  unfold left at h
  dsimp only at h
  rw [Tally.mk.injEq]
  split_ifs at h
  all_goals omega

theorem left_le : x.left r ≤ 3 * x.retiring + 2 := by
  unfold left
  split_ifs <;> omega

end Tally

/-! ## A round -/

/- What the scheduler and an agent make of an instance. -/
structure Ripened (drainingNodes : List String) (i i' : Instance) : Prop where
  metadata : i'.metadata = { i.metadata with resourceVersion := i'.metadata.resourceVersion }
  spec : i'.spec = { i.spec with node := i'.spec.node }
  node : if i.spec.node = "" then i'.spec.node ≠ "" ∧ i'.spec.node ∉ drainingNodes else i'.spec.node = i.spec.node
  phase : i'.phase = if i.phase = .draining then .draining else .ready

/- Every unbound instance is bound to a node that is not drained, and every instance that is not DRAINING becomes
READY. -/
structure Ripens (drainingNodes : List String) (s s' : Store) : Prop where
  insts : List.Forall₂ (Ripened drainingNodes) (s.listing .inst) (s'.listing .inst)
  workloads : s'.listing .workload = s.listing .workload
  nodes : s'.listing .node = s.listing .node

/- The store and the clock between two passes, and the deadlines that the controller remembers. -/
structure Scene where
  world : World
  deadlines : Deadlines

section Rounds
variable {hs : Hasher} (ro : Rollout hs)

/- A pass without a store error, a conflict or a name collision, then the rest of the cluster, then the wait until
the clock has reached every deadline on record. -/
structure Round (a b : Scene) : Prop where
  pass : ∃ order cs p h w, (workloadReconcile hs order a.deadlines).trace klited cs [] a.world = (some p, h, w) ∧
    (∀ e ∈ h, Smooth ro.name e) ∧ p.deadlines = b.deadlines ∧ Ripens ro.draining w.store b.world.store
  waited : ∀ (uid : Uid) (t : Int), b.deadlines[uid]? = some t → t ≤ b.world.now

def Rounds (a : Scene) (σ : ℕ → Scene) : Prop := σ 0 = a ∧ ∀ n, Round ro (σ n) (σ (n + 1))

def Rollout.tally (w : World) : Tally := ⟨ro.due w .fresh, ro.due w .retiring, ro.due w .draining⟩

/- Where a round leaves a workload: all instances are bound, READY or DRAINING, and no drain is still to be waited for. -/
structure Rested (a : Scene) : Prop where
  staged : Staged ro a.world.store
  bound : ∀ i : Instance, Holds a.world.store .inst i → i.spec.node ≠ "" ∧ (i.phase = .draining ∨ i.phase = .ready)
  expired : Expired a.world a.deadlines

/- Exactly `r` instances, all READY, of the current hash and on nodes that are not drained. -/
structure RolledOut (r : ℕ) (w : World) : Prop where
  length : (w.store.listing .inst).length = r
  insts : ∀ i ∈ w.store.listing .inst, i.phase = .ready ∧ i.spec.templateHash = ro.hash ∧ i.spec.node ≠ "" ∧
    i.spec.node ∉ ro.draining

def Op.writesInst : Op → Bool
  | .put .inst _ _ | .delete .inst _ | .deleteIfRevision .inst _ _ => true
  | _ => false

variable (hs) in
/- A pass from here, whatever it is answered, creates, marks and deletes no instance. -/
def PassesBy (a : Scene) : Prop :=
  ∀ order cs, ∀ e ∈ ((workloadReconcile hs order a.deadlines).trace klited cs [] a.world).2.1, e.op.writesInst = false

variable {ro} {a b : Scene} {w w' : World}

/-! ## From pass to pass -/

theorem outlook_ripened {i i' : Instance} (h : Ripened ro.draining i i') : ro.outlook i' = ro.outlook i := by
  have hhash : i'.spec.templateHash = i.spec.templateHash := by rw [h.spec]
  have hnode : (i'.spec.node = "" ∨ i'.spec.node ∉ ro.draining) ↔ (i.spec.node = "" ∨ i.spec.node ∉ ro.draining) := by
    have hn := h.node
    split at hn
    · rename_i he
      exact ⟨fun _ => Or.inl he, fun _ => Or.inr hn.2⟩
    · rw [hn]
  have hp := h.phase
  unfold Rollout.outlook
  split at hp
  · rename_i hd
    rw [if_pos hp, if_pos hd]
  · rename_i hd
    rw [if_neg (by rw [hp]; decide), if_neg hd, hhash]
    simp only [hnode]

theorem due_ripens (h : Ripens ro.draining w.store w'.store) (r : Role) : ro.due w' r = ro.due w r :=
  Table.forall₂_countP h.insts fun i i' hi => by rw [outlook_ripened hi]

theorem ripens_held {d : List String} {s s' : Store} (h : Ripens d s s') {i' : Instance} (hi : Holds s' .inst i') :
    ∃ i, Holds s .inst i ∧ Ripened d i i' := by
  obtain ⟨i, hm, hr⟩ := Table.forall₂_right h.insts (mem_listing.mpr hi)
  exact ⟨i, mem_listing.mp hm, hr⟩

variable {container : Container}

theorem round_reconciled (h0 : 0 ≤ ro.spec.replicas) (hone : ro.spec.template.containers = [container])
    (ha : Staged ro a.world.store) (hr : Round ro a b) :
    ∃ p w, Reconciled ro a.world a.deadlines w p ∧ p.deadlines = b.deadlines ∧ Ripens ro.draining w.store b.world.store := by
  obtain ⟨order, cs, p, h, w, htrace, hsmooth, hd, hrip⟩ := hr.pass
  have hy := yields_reconcile (h := []) order a.deadlines h0 hone ha
  obtain ⟨⟨p', hp', hrec⟩, -⟩ := guards_trace _ cs [] a.world hy (by rw [htrace]; exact hsmooth)
  rw [htrace] at hp' hrec
  cases hp'
  exact ⟨p, w, hrec, hd, hrip⟩

section Rested
variable {container : Container} (h0 : 0 ≤ ro.spec.replicas) (hone : ro.spec.template.containers = [container])
include h0 hone

theorem round_rested (ha : Staged ro a.world.store) (hr : Round ro a b) : Rested ro b := by
  obtain ⟨p, w, hrec, hd, hrip⟩ := round_reconciled h0 hone ha hr
  have hst := hrec.staged
  refine ⟨⟨?_, ?_, ?_⟩, ?_, ?_⟩
  · rw [hrip.workloads]
    exact hst.workload
  · rw [hrip.nodes]
    exact hst.nodes
  · intro i' hi'
    obtain ⟨i, hi, hri⟩ := ripens_held hrip hi'
    rw [hri.spec]
    exact hst.mine i hi
  · intro i' hi'
    obtain ⟨i, hi, hri⟩ := ripens_held hrip hi'
    have hn := hri.node
    have hp := hri.phase
    constructor
    · split at hn
      · exact hn.1
      · rename_i hne
        rw [hn]
        exact hne
    · split at hp
      · exact Or.inl hp
      · exact Or.inr hp
  · intro i' hi' hph
    obtain ⟨i, hi, hri⟩ := ripens_held hrip hi'
    have hp := hri.phase
    have hdr : i.phase = .draining := by
      by_contra hne
      rw [if_neg hne, hph] at hp
      cases hp
    obtain ⟨t, ht⟩ := hrec.noted i hi hdr
    rw [hri.metadata, ← hd]
    exact ⟨t, ht, hr.waited i.metadata.uid t (by rw [← hd]; exact ht)⟩

theorem round_retiring (ha : Staged ro a.world.store) (hr : Round ro a b) :
    ro.due b.world .retiring ≤ ro.due a.world .retiring := by
  obtain ⟨p, w, hrec, -, hrip⟩ := round_reconciled h0 hone ha hr
  obtain ⟨wl, -, gone, -, hb⟩ := hrec.books
  have h := hb .retiring
  rw [due_ripens hrip]
  simp only [reduceCtorEq, if_false] at h
  omega

end Rested

/-! ## A round is a step of the machine -/

theorem countP_outlook {l : List Instance} {ρ : Role} (h : ∀ i ∈ l, ro.outlook i = ρ) (r : Role) :
    l.countP (fun i => ro.outlook i = r) = if r = ρ then l.length else 0 := by
  split
  · rename_i hr
    exact List.countP_eq_length.mpr fun i hi => by simp [h i hi, hr]
  · rename_i hr
    exact List.countP_eq_zero.mpr fun i hi => by simpa [h i hi] using fun he : ρ = r => hr he.symm

theorem readyCount_all {l : List Instance} (h : ∀ i ∈ l, i.phase = .ready) : readyCount l = l.length :=
  List.countP_eq_length.mpr fun i hi => by simp [h i hi]

section Plan
variable {r : ℕ} {wl : Workload} {g : Groups}

def Groups.tally (g : Groups) : Tally := ⟨g.fresh.length, g.retiring.length, g.draining.length⟩

variable (ro) in
/- What a pass retires and creates is what the machine does in one step. -/
structure Planned (r : ℕ) (wl : Workload) (g : Groups) : Prop where
  fresh : g.fresh.length + additions wl g =
    (g.tally.next r).fresh + (retired wl g).countP (fun i => ro.outlook i = .fresh)
  retiring : g.retiring.length = (g.tally.next r).retiring + (retired wl g).countP (fun i => ro.outlook i = .retiring)
  draining : (g.tally.next r).draining = readyCount (retired wl g)
  other : (retired wl g).countP (fun i => ro.outlook i = .draining) = 0

theorem planned_surplus (hr : wl.spec.replicas = r) (hfresh : ∀ i ∈ g.fresh, ro.outlook i = .fresh ∧ i.phase = .ready)
    (hs : r < g.fresh.length) : Planned ro r wl g := by
  have hout : retired wl g = g.fresh.take (g.fresh.length - r) := by
    have hsurplus : surplusOf wl g = g.fresh.length - r := by simp [surplusOf, hr]
    rw [← hsurplus]
    exact retired_surplus (by omega) (by omega)
  have hadd : additions wl g = 0 := if_pos (by omega)
  have hnext : g.tally.next r = ⟨r, g.retiring.length, g.fresh.length - r⟩ := if_pos hs
  have hmem : ∀ i ∈ retired wl g, ro.outlook i = .fresh ∧ i.phase = .ready :=
    fun i hi => hfresh i (List.mem_of_mem_take (hout ▸ hi))
  have hcount := countP_outlook fun i hi => (hmem i hi).1
  have hready := readyCount_all fun i hi => (hmem i hi).2
  have hlen : (retired wl g).length = g.fresh.length - r := by rw [hout, List.length_take]; omega
  constructor
  · rw [hcount, hlen, hadd, hnext]
    exact (Nat.add_sub_cancel' hs.le).symm
  · rw [hcount, hnext]
    rfl
  · rw [hready, hlen, hnext]
  · rw [hcount]
    rfl

theorem planned_none {n : ℕ} (hout : retired wl g = []) (hadd : additions wl g = n)
    (hnext : g.tally.next r = ⟨g.fresh.length + n, g.retiring.length, 0⟩) : Planned ro r wl g := by
  constructor
  · rw [hout, hnext, hadd]
    rfl
  · rw [hout, hnext]
    rfl
  · rw [hout, hnext]
    rfl
  · rw [hout]
    rfl

theorem planned_missing (hr : wl.spec.replicas = r) (hm : g.fresh.length + g.retiring.length < r) : Planned ro r wl g := by
  have hs : ¬ ((g.fresh.length : Int) - wl.spec.replicas > 0) := by omega
  have hmi : (wl.spec.replicas - g.fresh.length - g.retiring.length : Int) > 0 := by omega
  refine planned_none (n := r - g.fresh.length - g.retiring.length) ?_ ?_ ?_
  · simp only [retired, if_neg hs, if_pos hmi]
  · simp only [additions, if_neg hs, if_pos hmi]
    omega
  · refine (Tally.next_missing (x := g.tally) hm).trans (Tally.mk.injEq .. ▸ ⟨?_, rfl, rfl⟩)
    show r - g.retiring.length = _
    omega

theorem planned_wait (hr : wl.spec.replicas = r) (hs : ¬ r < g.fresh.length)
    (hm : ¬ g.fresh.length + g.retiring.length < r) (hw : g.retiring = [] ∨ g.draining ≠ []) : Planned ro r wl g := by
  have hsi : ¬ ((g.fresh.length : Int) - wl.spec.replicas > 0) := by omega
  have hmi : ¬ ((wl.spec.replicas - g.fresh.length - g.retiring.length : Int) > 0) := by omega
  refine planned_none (n := 0) ?_ ?_ ?_
  · simp only [retired, if_neg hsi, if_neg hmi]
    cases hg : g.retiring with
    | nil => rfl
    | cons victim rest => exact if_pos (hw.resolve_left (by simp [hg]))
  · simp only [additions, if_neg hsi, if_neg hmi]
    cases hg : g.retiring with
    | nil => rfl
    | cons victim rest => exact if_pos (hw.resolve_left (by simp [hg]))
  · refine Tally.next_wait (x := g.tally) hs hm ?_
    simpa [Groups.tally, List.length_pos_iff] using hw

theorem planned_roll (hr : wl.spec.replicas = r) (hfresh : ∀ i ∈ g.fresh, ro.outlook i = .fresh ∧ i.phase = .ready)
    (hs : ¬ r < g.fresh.length) (hm : ¬ g.fresh.length + g.retiring.length < r) {victim : Instance} {rest : List Instance}
    (hg : g.retiring = victim :: rest) (hd : g.draining = [])
    (hv : ro.outlook victim = .retiring ∧ victim.phase = .ready) : Planned ro r wl g := by
  have hsi : ¬ ((g.fresh.length : Int) - wl.spec.replicas > 0) := by omega
  have hmi : ¬ ((wl.spec.replicas - g.fresh.length - g.retiring.length : Int) > 0) := by omega
  have hready : readyCount g.fresh = g.fresh.length := readyCount_all fun i hi => (hfresh i hi).2
  have hlen : g.retiring.length = rest.length + 1 := by rw [hg, List.length_cons]
  have hnext : g.tally.next r = if g.fresh.length + g.retiring.length = r then ⟨g.fresh.length + 1, g.retiring.length, 0⟩
      else ⟨g.fresh.length, g.retiring.length - 1, 1⟩ :=
    Tally.next_roll (x := g.tally) hs hm (by simp [Groups.tally, hd, hg])
  have hdi : ¬ (g.draining ≠ []) := not_not.mpr hd
  have hretired : retired wl g = rollRetired wl g victim := by
    simp only [retired, if_neg hsi, if_neg hmi]
    split
    · rename_i hnil
      cases hg.symm.trans hnil
    · rename_i v rest' hcons
      obtain ⟨rfl, -⟩ := List.cons.inj (hg.symm.trans hcons)
      exact if_neg hdi
  have hadditions : additions wl g = if (g.fresh.length : Int) + g.retiring.length = wl.spec.replicas ∧
      (readyCount g.fresh : Int) = g.fresh.length then 1 else 0 := by
    simp only [additions, if_neg hsi, if_neg hmi]
    split
    · rename_i hnil
      cases hg.symm.trans hnil
    · exact if_neg hdi
  by_cases ht : g.fresh.length + g.retiring.length = r
  · have hti : (g.fresh.length : Int) + g.retiring.length = wl.spec.replicas ∧
        (readyCount g.fresh : Int) = g.fresh.length := by omega
    refine planned_none (n := 1) ?_ ?_ (by rw [hnext, if_pos ht])
    · exact hretired.trans (if_pos hti)
    · exact hadditions.trans (if_pos hti)
  · have hout : retired wl g = [victim] := by
      rw [hretired, rollRetired, if_neg (by omega), if_pos (by omega)]
    have hadd : additions wl g = 0 := hadditions.trans (if_neg (by omega))
    rw [if_neg ht] at hnext
    constructor
    · rw [hout, hnext, hadd]
      simp [hv.1]
    · rw [hout, hnext]
      simp [hv.1, hlen]
    · rw [hout, hnext]
      simp [readyCount, hv.2]
    · rw [hout]
      simp [hv.1]

theorem planned (hr : wl.spec.replicas = r) (hfresh : ∀ i ∈ g.fresh, ro.outlook i = .fresh ∧ i.phase = .ready)
    (hretiring : ∀ i ∈ g.retiring, ro.outlook i = .retiring ∧ i.phase = .ready) : Planned ro r wl g := by
  by_cases hs : r < g.fresh.length
  · exact planned_surplus hr hfresh hs
  by_cases hm : g.fresh.length + g.retiring.length < r
  · exact planned_missing hr hm
  by_cases hw : g.retiring = [] ∨ g.draining ≠ []
  · exact planned_wait hr hs hm hw
  · rw [not_or, not_not] at hw
    obtain ⟨victim, rest, hg⟩ := List.exists_cons_of_ne_nil hw.1
    exact planned_roll hr hfresh hs hm hg hw.2 (hretiring victim (by rw [hg]; exact List.mem_cons_self))

end Plan

theorem outlook_ne_doomed (i : Instance) : ro.outlook i ≠ .doomed := by
  unfold Rollout.outlook
  split_ifs <;> simp

variable {i : Instance}

theorem roleOf_outlook (hn : i.spec.node ≠ "") (hp : i.phase = .draining ∨ i.phase = .ready) :
    roleOf ro.hash ro.draining i = ro.outlook i := by
  unfold roleOf Rollout.outlook
  rcases hp with hp | hp <;> simp [hp, hn]

section Groups
variable (ha : Rested ro a)
include ha

theorem rested_role (hi : i ∈ a.world.store.listing .inst) : roleOf ro.hash ro.draining i = ro.outlook i := by
  obtain ⟨hn, hp⟩ := ha.bound i (mem_listing.mp hi)
  exact roleOf_outlook hn hp

theorem rested_group {r : Role} (hi : i ∈ ofRole ro.hash ro.draining r (a.world.store.listing .inst)) :
    ro.outlook i = r := by
  obtain ⟨hl, hr⟩ := mem_ofRole.mp hi
  rw [← rested_role ha hl]
  exact hr

theorem rested_ready {r : Role} (hi : i ∈ ofRole ro.hash ro.draining r (a.world.store.listing .inst))
    (hr : r ≠ .draining) : i.phase = .ready := by
  refine (ha.bound i (mem_listing.mp (mem_ofRole.mp hi).1)).2.resolve_left fun hd => hr ?_
  rw [← rested_group ha hi]
  exact outlook_draining.mpr hd

theorem rested_length (r : Role) :
    (ofRole ro.hash ro.draining r (a.world.store.listing .inst)).length = ro.due a.world r := by
  unfold ofRole Rollout.due Store.count
  rw [← List.countP_eq_length_filter]
  refine List.countP_congr fun i hi => ?_
  rw [rested_role ha hi]

theorem rested_tally : (ro.groups a.world).tally = ro.tally a.world := by
  unfold Groups.tally Rollout.groups Rollout.tally classify
  simp only [length_sortNewestFirst, rested_length ha]

theorem rested_doomed : (ro.groups a.world).doomed = [] :=
  List.eq_nil_iff_forall_not_mem.mpr fun i hi => outlook_ne_doomed i (rested_group ha hi)

end Groups

variable {r : ℕ}

theorem round_tally (hr : ro.spec.replicas = r) (hone : ro.spec.template.containers = [container]) (ha : Rested ro a)
    (hab : Round ro a b) : ro.tally b.world = (ro.tally a.world).next r := by
  obtain ⟨p, w, hrec, -, hrip⟩ := round_reconciled (by omega) hone ha.staged hab
  obtain ⟨wl, hspec, gone, hgone, hb⟩ := hrec.books
  rw [hgone ha.expired, rested_doomed ha] at hb
  have hplan : Planned ro r wl (ro.groups a.world) := by
    refine planned (by rw [hspec]; exact hr) (fun i hi => ?_) fun i hi => ?_
    · have hi' := mem_sortNewestFirst.mp hi
      exact ⟨rested_group ha hi', rested_ready ha hi' (by decide)⟩
    · have hi' := mem_sortNewestFirst.mp hi
      exact ⟨rested_group ha hi', rested_ready ha hi' (by decide)⟩
  have hdrain := countP_outlook (l := (ro.groups a.world).draining) fun i hi => rested_group ha hi
  have htally := rested_tally ha
  have hbefore : ∀ ρ, ro.due b.world ρ + (retired wl (ro.groups a.world)).countP (fun i => ro.outlook i = ρ) +
      (if ρ = .draining then (ro.groups a.world).draining.length else 0) = ro.due a.world ρ +
      (if ρ = .draining then readyCount (retired wl (ro.groups a.world)) else 0) +
      (if ρ = .fresh then additions wl (ro.groups a.world) else 0) := by
    intro ρ
    have h := hb ρ
    rw [List.nil_append, List.countP_append, hdrain] at h
    rw [due_ripens hrip]
    omega
  have hF := hbefore .fresh
  have hR := hbefore .retiring
  have hD := hbefore .draining
  simp only [reduceCtorEq, if_true, if_false] at hF hR hD
  obtain ⟨hpf, hpr, hpd, hpo⟩ := hplan
  rw [htally] at hpf hpr hpd
  obtain ⟨hlf, hlr, hld⟩ := (Tally.mk.injEq ..).mp htally
  refine Tally.ext ?_ ?_ ?_
  · show ro.due b.world .fresh = _
    omega
  · show ro.due b.world .retiring = _
    omega
  · show ro.due b.world .draining = _
    omega

/-! ## There is always a next round -/

def padding (k : ℕ) : String := String.ofList (List.replicate k 'a')

theorem padding_valid {name : String} (hv : validName name) (k : ℕ) : validName (name ++ "-" ++ padding k) := by
  unfold validName padding at *
  simp only [Bool.and_eq_true, decide_eq_true_eq, Bool.not_eq_true', List.contains_eq_mem, decide_eq_false_iff_not] at hv ⊢
  refine ⟨fun he => ?_, ?_⟩
  · have := congrArg String.length he
    simp at this
  · simp only [String.toList_append, String.toList_ofList, List.mem_append, List.mem_replicate, not_or]
    exact ⟨⟨hv.2, by decide⟩, fun h => absurd h.2 (by decide)⟩

theorem unlisted (name : String) (l : List String) : ∃ k, name ++ padding (k + 1) ∉ l := by
  obtain ⟨n, hn⟩ := Finset.exists_le (l.map String.length).toFinset
  refine ⟨n, fun hm => ?_⟩
  have hle := hn _ (List.mem_toFinset.mpr (List.mem_map_of_mem hm))
  simp only [padding, String.length_append, String.length_ofList, List.length_replicate] at hle
  omega

theorem free_name (s : Store) (name : String) : ∃ k, s.lookup .inst (name ++ "-" ++ padding (k + 1)) = none := by
  obtain ⟨k, hk⟩ := unlisted (name ++ "-") ((s.listing .inst).map fun i => i.metadata.name)
  refine ⟨k, Option.eq_none_iff_forall_ne_some.mpr fun e he => hk ?_⟩
  exact List.mem_map.mpr ⟨e.1, mem_listing.mpr (holds_of_lookup he), (lookup_some (o := e.1) (r := e.2) he).1⟩

theorem smooth_exists {name : String} (hv : validName name) (op : Op) (w : World) :
    ∃ c, Smooth name (klited.event c op w) := by
  obtain ⟨k, hk⟩ := free_name w.store name
  exact ⟨{ suffix := padding (k + 1) }, padding (k + 1), rfl, fun _ => ⟨padding_valid hv _, hk⟩⟩

def ripe (node : String) (i : Instance) : Instance where
  metadata := i.metadata
  spec := { i.spec with node := if i.spec.node = "" then node else i.spec.node }
  status := some { i.getStatus with phase := if i.phase = .draining then .draining else .ready }

theorem ripened_ripe {drainingNodes : List String} {node : String} (hne : node ≠ "") (hn : node ∉ drainingNodes)
    (i : Instance) : Ripened drainingNodes i (ripe node i) := by
  refine ⟨rfl, rfl, ?_, rfl⟩
  unfold ripe
  dsimp only
  split
  · exact ⟨hne, hn⟩
  · rfl

def Store.ripen (node : String) (s : Store) : Store where
  rev := s.rev
  uids := s.uids
  tbl := Function.update s.tbl .inst ((s.tbl .inst).map fun _ e => (ripe node e.1, e.2))
  rev_nonneg := s.rev_nonneg
  wf := by
    intro k n o r h
    by_cases hk : k = .inst
    · subst hk
      rw [Function.update_self, Std.ExtTreeMap.getElem?_map] at h
      obtain ⟨⟨o', r'⟩, hg, he⟩ := Option.map_eq_some_iff.mp h
      cases he
      exact s.wf .inst n o' r' hg
    · rw [Function.update_of_ne hk] at h
      exact s.wf k n o r h

theorem ripens_ripen {drainingNodes : List String} {node : String} (hne : node ≠ "") (hn : node ∉ drainingNodes)
    (s : Store) : Ripens drainingNodes s (s.ripen node) := by
  have hother : ∀ k, k ≠ .inst → (s.ripen node).tbl k = s.tbl k := fun k hk => Function.update_of_ne hk _ _
  refine ⟨?_, listing_of_tbl (hother .workload (by decide)), listing_of_tbl (hother .node (by decide))⟩
  have hl : (s.ripen node).listing .inst = (s.listing .inst).map (ripe node) := by
    unfold Store.listing Store.ripen
    dsimp only
    rw [Function.update_self, Std.ExtTreeMap.toList_map, List.map_map, List.map_map]
    rfl
  rw [hl, List.forall₂_map_right_iff]
  exact List.forall₂_same.mpr fun i _ => ripened_ripe hne hn i

/- A free name is always found here because a suffix may have any length. The source's has four hexadecimal
digits, so its names run out at 65536 instances of a workload. -/
theorem round_exists (h0 : 0 ≤ ro.spec.replicas) (hone : ro.spec.template.containers = [container])
    (ha : Staged ro a.world.store) : ∃ b, Round ro a b := by
  obtain ⟨wl, hl, hname, -⟩ := ha.workload
  have hwl : Holds a.world.store .workload wl := mem_listing.mp (by rw [hl]; exact List.mem_singleton_self wl)
  have hv : validName ro.name := by
    rw [← hname]
    exact (lookup_some hwl).2.2.1
  have : Nonempty klited.Choice := ⟨({} : Choice)⟩
  obtain ⟨cs, hcs⟩ := trace_exists (M := klited) (smooth_exists hv) (workloadReconcile hs id a.deadlines) [] a.world
    fun e he => absurd he List.not_mem_nil
  obtain ⟨⟨p, hp, -⟩, -⟩ := guards_trace _ cs [] a.world (yields_reconcile (h := []) id a.deadlines h0 hone ha) hcs
  obtain ⟨k, hk⟩ := unlisted "" ro.draining
  obtain ⟨t, ht⟩ := Finset.exists_le (p.deadlines.toList.map Prod.snd).toFinset
  generalize htr : (workloadReconcile hs id a.deadlines).trace klited cs [] a.world = run at hp hcs
  obtain ⟨_, h, w⟩ := run
  obtain rfl : _ = some p := hp
  have hne : "" ++ padding (k + 1) ≠ "" := fun he => by
    have hlen := congrArg String.length he
    simp [padding] at hlen
  refine ⟨⟨⟨w.store.ripen _, t⟩, p.deadlines⟩, ⟨id, cs, p, h, w, htr, hcs, rfl, ripens_ripen hne hk w.store⟩, ?_⟩
  intro uid t' ht'
  exact ht t' (List.mem_toFinset.mpr (List.mem_map.mpr ⟨(uid, t'), Table.mem_toList.mpr ht', rfl⟩))

/-! ## Coming to rest -/

theorem rolledOut_of_tally (ha : Rested ro a) (ht : ro.tally a.world = ⟨r, 0, 0⟩) : RolledOut ro r a.world := by
  obtain ⟨hfresh, hretiring, hdraining⟩ := (Tally.mk.injEq ..).mp ht
  have hall : ∀ i ∈ a.world.store.listing .inst, ro.outlook i = .fresh := by
    intro i hi
    have hnone : ∀ ρ, ro.due a.world ρ = 0 → ro.outlook i ≠ ρ := by
      intro ρ hz he
      exact List.countP_eq_zero.mp hz i hi (decide_eq_true he)
    cases ho : ro.outlook i with
    | fresh => rfl
    | retiring => exact absurd ho (hnone _ hretiring)
    | draining => exact absurd ho (hnone _ hdraining)
    | doomed => exact absurd ho (outlook_ne_doomed i)
  refine ⟨?_, fun i hi => ?_⟩
  · rw [← hfresh]
    exact (List.countP_eq_length.mpr fun i hi => decide_eq_true (hall i hi)).symm
  · obtain ⟨hn, hp⟩ := ha.bound i (mem_listing.mp hi)
    have hready : i.phase = .ready := hp.resolve_left fun hd => by
      have hod : ro.outlook i = .draining := outlook_draining.mpr hd
      rw [hall i hi] at hod
      cases hod
    have hfi := hall i hi
    unfold Rollout.outlook at hfi
    rw [if_neg (by rw [hready]; decide)] at hfi
    split at hfi
    · rename_i hc
      exact ⟨hready, hc.1, hn, hc.2.resolve_left hn⟩
    · cases hfi

theorem advance_idle {wl : Workload} (hr : wl.spec.replicas = r) (hout : RolledOut ro r w) (p : Progress) :
    advance wl container ro.hash (w.store.listing .inst) ro.draining p = pure p := by
  have hrole : ∀ i ∈ w.store.listing .inst, roleOf ro.hash ro.draining i = .fresh := by
    intro i hi
    obtain ⟨hp, hh, -, hn⟩ := hout.insts i hi
    unfold roleOf
    rw [if_neg (by rw [hp]; decide), if_pos ⟨hh, hn⟩]
  have hnone : ∀ ρ, ρ ≠ .fresh → ofRole ro.hash ro.draining ρ (w.store.listing .inst) = [] := by
    intro ρ hρ
    refine List.filter_eq_nil_iff.mpr fun i hi he => hρ ?_
    rw [← of_decide_eq_true he]
    exact hrole i hi
  have hfresh : ofRole ro.hash ro.draining .fresh (w.store.listing .inst) = w.store.listing .inst :=
    List.filter_eq_self.mpr fun i hi => decide_eq_true (hrole i hi)
  have hlen := hout.length
  simp only [advance, classify, hnone .doomed (by decide), hnone .draining (by decide), hnone .retiring (by decide), hfresh]
  show advanceFresh wl container ro.hash _ p = _
  unfold advanceFresh
  dsimp only
  rw [length_sortNewestFirst, if_neg (by omega), if_neg (by simp [sortNewestFirst]; omega)]
  rfl

section PassesBy
variable {S : Log → World → Op → Prop} {α : Type} {Q : Log → World → α → Prop} {h : Log}

theorem guards_list_any {k : Kind} {f : Except StoreErr (List k.Obj × Int) → Code α} (hs : S h w (.list k))
    (herr : ∀ e h', Guards (M := klited) Eq (AnyEvent klited) S Q (f (.error e)) h' w)
    (hok : ∀ h', Guards (M := klited) Eq (AnyEvent klited) S Q (f (.ok (w.store.listing k, w.store.rev))) h' w) :
    Guards (M := klited) Eq (AnyEvent klited) S Q (list k >>= f) h w := by
  refine guards_answer (fun _ he => he ▸ hs) ?_
  rintro _ c r w' rfl he -
  cases he
  dsimp only
  split
  · exact hok _
  · exact herr _ _

theorem guards_updateStatus {wl : Workload} {hash : String} {insts : List Instance} {p : Progress} :
    Guards (M := klited) Eq (AnyEvent klited) (fun _ _ op => op.writesInst = false) (fun _ _ _ => True)
      (updateStatus wl hash insts p) h w := by
  unfold updateStatus
  dsimp only
  split
  · trivial
  · refine guards_call fun w' _ => ⟨rfl, fun c _ => ?_⟩
    split
    · trivial
    · split <;> trivial

end PassesBy

theorem passesBy_of_rolledOut (hr : ro.spec.replicas = r) (hone : ro.spec.template.containers = [container])
    (ha : Staged ro a.world.store) (hout : RolledOut ro r a.world) : PassesBy hs a := by
  intro order cs
  let S : Log → World → Op → Prop := fun _ _ op => op.writesInst = false
  have hg : Guards (M := klited) Eq (AnyEvent klited) S (fun _ _ _ => True) (workloadReconcile hs order a.deadlines) []
      a.world := by
    obtain ⟨wl, hl, hname, hspec⟩ := ha.workload
    refine guards_list_any rfl (fun _ _ => trivial) fun h₁ => guards_list_any rfl (fun _ _ => trivial) fun h₂ =>
      guards_list_any rfl (fun _ _ => trivial) fun h₃ => ?_
    unfold reconcileListed
    rw [hl]
    refine guards_bind (P := fun _ _ _ => True) ?_ fun h' w' p' _ => ?_
    · rw [List.foldlM_cons]
      refine guards_bind (P := fun _ _ _ => True) ?_ fun _ _ _ _ => trivial
      have hall : (a.world.store.listing .inst).filter (fun i => i.spec.workload = wl.metadata.name) =
          a.world.store.listing .inst := by
        refine List.filter_eq_self.mpr fun i hi => decide_eq_true ?_
        rw [hname]
        exact ha.mine i (mem_listing.mp hi)
      unfold reconcileWorkload
      rw [hspec, hone, ha.nodes]
      dsimp only
      rw [ro.hashed]
      dsimp only
      rw [hall, advance_idle (by rw [hspec]; exact hr) hout]
      exact guards_updateStatus
    · rw [sweep_idle]
      · trivial
      · intro i hi
        rw [ha.mine i (mem_listing.mp hi)]
        simp [hname]
  intro e he
  obtain ⟨h', hS⟩ := ((guards_trace _ cs [] a.world hg fun _ _ => trivial).2 e he).resolve_left List.not_mem_nil
  exact hS

/-- Rollouts converge. With `r` replicas and one container, from every scene that holds the workload and any instances of it, with
any deadlines, there are rounds without end, and after some number of them the workload is rolled out and stays so, and no pass
touches an instance. -/
theorem rollout_converges (ro : Rollout hs) (r : ℕ) (container : Container) (hr : ro.spec.replicas = r)
    (hone : ro.spec.template.containers = [container]) (a : Scene) (ha : Staged ro a.world.store) :
    (∃ σ, Rounds ro a σ) ∧ ∃ N, ∀ σ, Rounds ro a σ → ∀ n, N ≤ n → RolledOut ro r (σ n).world ∧ PassesBy hs (σ n) := by
  have h0 : 0 ≤ ro.spec.replicas := by omega
  have hstep : ∀ b, Staged ro b.world.store → ∃ b', Round ro b b' := fun b hb => round_exists h0 hone hb
  constructor
  · -- The next scene is chosen again and again.
    let S := { b : Scene // Staged ro b.world.store }
    have hnext : ∀ b : S, ∃ b' : S, Round ro b.1 b'.1 := by
      intro b
      obtain ⟨b', hb'⟩ := hstep b.1 b.2
      exact ⟨⟨b', (round_rested h0 hone b.2 hb').staged⟩, hb'⟩
    choose next hnext using hnext
    let σ : ℕ → S := fun n => Nat.rec ⟨a, ha⟩ (fun _ b => next b) n
    exact ⟨fun n => (σ n).1, rfl, fun n => hnext (σ n)⟩
  · refine ⟨3 * ro.due a.world .retiring + 3, ?_⟩
    rintro σ ⟨rfl, hσ⟩ n hn
    have hrested : ∀ n, Rested ro (σ (n + 1)) := by
      intro n
      induction n with
      | zero => exact round_rested h0 hone ha (hσ 0)
      | succ n ih => exact round_rested h0 hone ih.staged (hσ (n + 1))
    -- Round by round there is less left to do.
    have hleft : ∀ n, (ro.tally (σ (n + 1)).world).left r ≤ (ro.tally (σ 1).world).left r - n := by
      intro n
      induction n with
      | zero => exact le_refl _
      | succ n ih =>
        have hlt := Tally.left_next r (ro.tally (σ (n + 1)).world)
        rw [← round_tally hr hone (hrested n) (hσ (n + 1))] at hlt
        omega
    have hfirst := Tally.left_le r (ro.tally (σ 1).world)
    have hretiring : (ro.tally (σ 1).world).retiring ≤ ro.due (σ 0).world .retiring := round_retiring h0 hone ha (hσ 0)
    obtain ⟨m, rfl⟩ : ∃ m, n = m + 1 := ⟨n - 1, by omega⟩
    have hzero : (ro.tally (σ (m + 1)).world).left r = 0 := by
      have := hleft m
      omega
    have hout := rolledOut_of_tally (hrested m) (Tally.left_eq_zero r _ hzero)
    exact ⟨hout, passesBy_of_rolledOut hr hone (hrested m).staged hout⟩

end Rounds

section Runs

def pairRollout : Rollout ⟨fun _ => .ok "h2"⟩ where
  name := "web"
  spec := webOne.spec
  hash := "h2"
  draining := []
  hashed := rfl

def pairScene : Scene where
  world := { pairWorld .pending .ready with store := ((pairWorld .pending .ready).store.put 9 .workload webOne revCreate).2 }
  deadlines := ∅

theorem pair_staged : Staged pairRollout pairScene.world.store := by
  refine ⟨⟨{ webOne with metadata := { name := "web", uid := 3, resourceVersion := 3, createdUnix := 9 } }, ?_, rfl, rfl⟩,
    ?_, ?_⟩
  · decide +kernel
  · decide +kernel
  · have hall : (pairScene.world.store.listing .inst).all (fun i => i.spec.workload = "web") = true := by decide +kernel
    intro i hi
    exact of_decide_eq_true (List.all_eq_true.mp hall i (mem_listing.mpr hi))

theorem pair_converges : ∃ σ N, Rounds pairRollout pairScene σ ∧ RolledOut pairRollout 1 (σ N).world := by
  obtain ⟨⟨σ, hσ⟩, N, hN⟩ := rollout_converges pairRollout 1 {} rfl rfl pairScene pair_staged
  exact ⟨σ, N, hσ, (hN σ hσ N (le_refl N)).1⟩

end Runs

end Klite
