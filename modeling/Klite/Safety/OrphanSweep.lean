import Klite.Safety.PinnedDeletes

/-!
# The orphan sweep

A workload pass lists the workloads first and the instances after them, so an instance it
lists may belong to a workload that was stored in between.
-/

namespace Klite
open Lib

def namesOf (wls : List Workload) : List String := wls.map (·.metadata.name)

/- When a workload pass lists the instances, its workload listing names the workload of every
stored instance whose workload is stored. -/
def ListsCovered (s : Klited) : Step → Prop
  | .step t _ => ∀ th wls inst, s.Calls t th (.list .inst) → th.tag.isWorkload →
      lastListed .workload th.hist = some wls → Holds s.world.store .inst inst →
      s.world.store.lookup .workload inst.spec.workload ≠ none → inst.spec.workload ∈ namesOf wls
  | _ => True

/- Since the revision `rev`: what a pass listed of the workload `n` that is newer than `rev`, its
workload listing covers. -/
def SparesSince (n : String) (rev : Int) (s : Klited) : Prop :=
  ∀ th ∈ s.threads, th.tag.isWorkload → ∀ insts wls, lastListed .inst th.hist = some insts →
    lastListed .workload th.hist = some wls → ∀ inst ∈ insts, rev < inst.metadata.resourceVersion →
    inst.spec.workload = n → n ∈ namesOf wls

section Sweep
variable {cfg : Config} {n : String} {rev : Int} {s : Klited}

theorem spares_start (hr : Recorded s) : SparesSince n s.world.store.rev s := by
  intro th hm _ insts wls hi _ inst hmem hrev _
  obtain ⟨e, he, rfl⟩ := lastListed_listing (fun e he => ((hr th hm).1 e he).2) hi
  have hold := lookup_some (mem_listing.mp hmem)
  have hle : e.post.store.rev ≤ s.world.store.rev := (recorded_le hr hm he).1.rev_le
  have hrv : (metaOf (k := .inst) inst).resourceVersion = inst.metadata.resourceVersion := rfl
  omega

theorem name_listed {w : World} (h : w.store.lookup .workload n ≠ none) : n ∈ namesOf (w.store.listing .workload) := by
  obtain ⟨⟨wl, r⟩, hl⟩ := Option.ne_none_iff_exists'.mp h
  have hname : wl.metadata.name = n := (lookup_some hl).1
  rw [← hname]
  exact List.mem_map_of_mem (mem_listing.mpr (holds_of_lookup hl))

theorem spares_call {th : Proc} {c : Choice} {op : Op} {t : ℕ} (hcall : s.Calls t th op)
    (htag : th.tag.isWorkload) (hn : s.world.store.lookup .workload n ≠ none)
    (hc : ListsCovered s (.step t c)) (hs : SparesSince n rev s) {insts : List Instance} {wls : List Workload}
    (hi : lastListed .inst (klited.event c op s.world :: th.hist) = some insts)
    (hw : lastListed .workload (klited.event c op s.world :: th.hist) = some wls)
    {inst : Instance} (hmem : inst ∈ insts) (hrev : rev < inst.metadata.resourceVersion)
    (hwl : inst.spec.workload = n) : n ∈ namesOf wls := by
  have hm := List.mem_of_getElem? hcall.1
  cases hlw : listedBy .workload (klited.event c op s.world) with
  | some l =>
    rw [lastListed_event hlw hw]
    exact name_listed hn
  | none =>
    rw [lastListed_cons hlw] at hw
    cases hli : listedBy .inst (klited.event c op s.world) with
    | none =>
      rw [lastListed_cons hli] at hi
      exact hs th hm htag insts wls hi hw inst hmem hrev hwl
    | some l =>
      -- The listing that makes the pass a possible sweeper of `n`.
      rw [listedBy_op hli] at hcall
      rw [lastListed_event hli hi] at hmem
      have hcov := hc th wls inst hcall htag hw (mem_listing.mp hmem)
      rw [hwl] at hcov
      exact hcov hn

theorem spares_next {l : Step} (hn : s.world.store.lookup .workload n ≠ none) (hc : ListsCovered s l)
    (hs : SparesSince n rev s) : SparesSince n rev (s.next (body cfg) l) := by
  intro th' hm' htag insts wls hi hw inst hmem hrev hwl
  obtain ⟨u, hu⟩ := List.getElem?_of_mem hm'
  rcases next_thread (body cfg) hu with ⟨th, hth, ht, hh, -⟩ | ⟨g, -, rfl⟩ | ⟨c, th, op, k, rfl, hth, hp, rfl⟩
  · rw [hh] at hi hw
    rw [ht] at htag
    exact hs th (List.mem_of_getElem? hth) htag insts wls hi hw inst hmem hrev hwl
  · cases hi
  · exact spares_call ⟨hth, k, hp⟩ htag hn hc hs hi hw hmem hrev hwl

theorem spares_run (ls : List Step) (hc : Along (body cfg) ListsCovered s ls)
    (hn : ∀ ls', ls' <+: ls → (s.run (body cfg) ls').world.store.lookup .workload n ≠ none)
    (hs : SparesSince n rev s) : SparesSince n rev (s.run (body cfg) ls) := by
  induction ls generalizing s with
  | nil => exact hs
  | cons l ls ih =>
    have h0 := hn [] (List.nil_prefix)
    apply ih hc.2
    · intro ls' hls'
      exact hn (l :: ls') (List.cons_prefix_cons.mpr ⟨rfl, hls'⟩)
    · exact spares_next h0 hc.1 hs

end Sweep

/-- A pass that removes an instance which was created while its workload was stored, and whose
workload has stayed stored, does not remove it as an orphan: it listed the workload. -/
theorem orphans_spared (cfg : Config) (w : World) (ls₁ ls₂ : List Step) (t : ℕ) (c : Choice) (th : Proc)
    (n : String) (cur : Instance) (r : Int) (hcond : Along (body cfg) ListsCovered (start w) (ls₁ ++ ls₂))
    (hnew : ∀ o r', ((start w).run (body cfg) ls₁).world.store.lookup .inst n = some (o, r') →
      o.metadata.uid ≠ cur.metadata.uid) (hstored : ∀ ls, ls <+: ls₂ →
      ((start w).run (body cfg) (ls₁ ++ ls)).world.store.lookup .workload cur.spec.workload ≠ none)
    (hth : ((start w).run (body cfg) (ls₁ ++ ls₂)).threads[t]? = some th) (htag : th.tag.isWorkload)
    (hpre : ((start w).run (body cfg) (ls₁ ++ ls₂)).world.store.lookup .inst n = some (cur, r))
    (hpost : (((start w).run (body cfg) (ls₁ ++ ls₂)).next (body cfg) (.step t c)).world.store.lookup .inst n = none) :
    ∃ wls, lastListed .workload th.hist = some wls ∧ cur.spec.workload ∈ namesOf wls := by
  have hsound₁ := sound_run cfg w ls₁
  have hsound := sound_run cfg w (ls₁ ++ ls₂)
  obtain ⟨order, passes, hg⟩ : ∃ order passes, th.tag = .workload order passes := by
    cases hg : th.tag with
    | workload order passes => exact ⟨order, passes, rfl⟩
    | _ => rw [hg] at htag; cases htag
  have hr := removed_right hsound hth (by rw [hg]; rfl) hpre hpost
  rw [hg] at hr
  obtain ⟨wls, insts, hw, hi, hmem, -⟩ := hr
  -- The record is newer than the state in which the instance was not there.
  have hmono : klited.le ((start w).run (body cfg) ls₁).world ((start w).run (body cfg) (ls₁ ++ ls₂)).world := by
    rw [run_append]
    exact run_le (body cfg) _ ls₂
  have hcur := lookup_some hpre
  have hrev : ((start w).run (body cfg) ls₁).world.store.rev < cur.metadata.resourceVersion := by
    by_contra hle
    have hr' : cur.metadata.resourceVersion = r := hcur.2.1
    exact hnew cur r (lookup_back hmono.1 hpre (by omega)) rfl
  refine ⟨wls, hw, ?_⟩
  have hspares : SparesSince cur.spec.workload ((start w).run (body cfg) ls₁).world.store.rev
      ((start w).run (body cfg) (ls₁ ++ ls₂)) := by
    rw [run_append]
    apply spares_run ls₂ (along_append (body cfg) _ ls₁ ls₂ hcond)
    · intro ls hls
      rw [← run_append]
      exact hstored ls hls
    · exact spares_start hsound₁.recorded
  exact hspares th (List.mem_of_getElem? hth) htag insts wls hi hw cur hmem hrev rfl

section Runs

def sweptWorkload : Workload where
  metadata := { name := "web" }
  spec := { replicas := 1, template := { containers := [{ image := "img" }] } }

def emptyWorld : World := ⟨Store.empty, 7 * second⟩

def applyWeb : Call := .apply (.ok [⟨.workload, sweptWorkload⟩])

def leaderLife : Call := .workload (fun _ names => names) 1

def pausedSteps : List Step := [.spawn leaderLife, .step 0 {}, .spawn applyWeb, .step 1 {}, .step 1 {}]

def resumedSteps : List Step :=
  [.spawn leaderLife, .step 2 {}, .step 2 {}, .step 2 {}, .step 2 { suffix := "1a2b" }, .step 2 {},
    .step 0 {}, .step 0 {}]

def workloadStored (w : World) : Bool := (w.store.lookup .workload "web").isSome

def instanceStored (w : World) : Bool := (w.store.lookup .inst "web-1a2b").isSome

def sweptWith (s : Klited) : Option (List String) :=
  s.threads[0]?.bind fun th => (lastListed .workload th.hist).map namesOf

/-- The workload is stored before the instance and ever since, and the paused pass removes it. -/
theorem live_instance_swept : instanceStored (plainRun emptyWorld pausedSteps).world = false ∧
    (∀ i < 9, workloadStored (plainRun emptyWorld (pausedSteps ++ resumedSteps.take i)).world) ∧
    instanceStored (plainRun emptyWorld (pausedSteps ++ resumedSteps)).world ∧
    sweptWith (plainRun emptyWorld (pausedSteps ++ resumedSteps)) = some [] ∧
    instanceStored ((plainRun emptyWorld (pausedSteps ++ resumedSteps)).next
      (body plainConfig) (.step 0 {})).world = false := by
  decide +kernel

def coveredCheck (s : Klited) (l : Step) : Bool :=
  match l with
  | .step t _ =>
    match s.threads[t]? with
    | some th => (lastListed .workload th.hist).all fun wls => (s.world.store.listing .inst).all fun i =>
        (s.world.store.lookup .workload i.spec.workload).isNone || i.spec.workload ∈ namesOf wls
    | none => true
  | _ => true

theorem covered_of_check (s : Klited) (l : Step) (h : coveredCheck s l) : ListsCovered s l := by
  cases l with
  | step t c =>
    intro th wls inst hcall _ hw hi hn
    simp only [coveredCheck, hcall.1, hw, Option.all_some, List.all_eq_true, Bool.or_eq_true,
      Option.isNone_iff_eq_none, decide_eq_true_eq] at h
    exact (h inst (mem_listing.mpr hi)).resolve_left hn
  | _ => trivial

def scaledSteps : List Step :=
  [.spawn leaderLife, .step 1 {}, .step 1 {}, .step 1 {}, .step 1 { suffix := "1a2b" }, .step 1 {}, .step 1 {},
    .spawn (.scale "web" 0), .step 2 {}, .step 2 {},
    .spawn leaderLife, .step 3 {}, .step 3 {}, .step 3 {}]

def appliedSteps : List Step := [.spawn applyWeb, .step 0 {}, .step 0 {}]

def sweptSystem : Klited := plainRun emptyWorld (appliedSteps ++ scaledSteps)

theorem scaled_checked :
    checkAlong (body plainConfig) coveredCheck (start emptyWorld) (appliedSteps ++ scaledSteps) ∧
    instanceStored (plainRun emptyWorld appliedSteps).world = false ∧
    (∀ i < 15, workloadStored
      (plainRun emptyWorld (appliedSteps ++ scaledSteps.take i)).world) ∧
    (sweptSystem.threads[3]?.map fun th => th.tag.isWorkload) = some true ∧
    (sweptSystem.world.store.lookup .inst "web-1a2b").map (fun e => Instance.spec e.1 |>.workload) = some "web" ∧
    instanceStored (sweptSystem.next (body plainConfig) (.step 3 {})).world = false := by
  decide +kernel

theorem orphans_spared_scaled : ∃ th cur r, sweptSystem.threads[3]? = some th ∧
    sweptSystem.world.store.lookup .inst "web-1a2b" = some (cur, r) ∧
    ∃ wls, lastListed .workload th.hist = some wls ∧ cur.spec.workload ∈ namesOf wls := by
  obtain ⟨hcheck, hnone, hstored, htag, hinst, hgone⟩ := scaled_checked
  obtain ⟨th, hth, hwl⟩ := Option.map_eq_some_iff.mp htag
  obtain ⟨⟨cur, r⟩, hl, hweb⟩ := Option.map_eq_some_iff.mp hinst
  have hname : cur.spec.workload = "web" := hweb
  have hremoved : (sweptSystem.next (body plainConfig) (.step 3 {})).world.store.lookup .inst "web-1a2b" = none := by
    simpa [instanceStored] using hgone
  refine ⟨th, cur, r, hth, hl, ?_⟩
  apply orphans_spared plainConfig emptyWorld appliedSteps scaledSteps 3 {} th "web-1a2b" cur r
    (along_of_check (body plainConfig) covered_of_check _ _ hcheck) _ _ hth hwl hl hremoved
  · intro o r' ho
    simp [instanceStored, ho] at hnone
  · intro ls hls
    have hlen := hls.length_le
    rw [List.prefix_iff_eq_take.mp hls, hname]
    have hlt : ls.length < 15 := Nat.lt_succ_of_le hlen
    exact Option.isSome_iff_ne_none.mp (hstored ls.length hlt)

end Runs

end Klite
