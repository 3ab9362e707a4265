import Klite.Safety.RolloutTally

/-!
# The surge-first rollout

One workload controller at a time works on listings that grow old.
-/

namespace Klite
open Lib

section Pass
variable {cfg : Config} (ro : Rollout cfg.hasher) (tight : Prop)

/- The caller's listing of the instances, against the store as it is now. -/
def Tallied (h : Log) (w : World) : Prop :=
  ∀ insts, lastListed .inst h = some insts → ∃ w₀, insts = w₀.store.listing .inst ∧ Steady ro tight w₀ ∧
    StepTally ro (createdSince ro.name h) (retiredSince ro.name h) w₀ w

-- Whatever the caller has seen was steady.
def SawSteady (h : Log) : Prop := ∀ e ∈ h, (∃ c, e = klited.event c e.op e.pre) ∧ Steady ro tight e.post

/- What a pass has listed of the workload, in the numbers of the listed world. -/
structure Sees (w₀ : World) (wl : Workload) (g : Groups) : Prop where
  spec : wl.spec = ro.spec
  fresh : g.fresh.length = ro.count w₀ .fresh
  retiring : g.retiring.length = ro.count w₀ .retiring
  draining : g.draining.length = ro.count w₀ .draining
  ready : readyIn w₀ ro.name = readyCount g.fresh + g.retiring.length
  unblocked : surgeBlocked g.fresh = false

variable {ro tight} {h : Log} {w w₀ : World} {wl : Workload} {container : Container} {hash : String}
  {g : Groups}

theorem listed_spec (hsaw : SawSteady ro tight h) {wls : List Workload} (hl : lastListed .workload h = some wls) :
    ro.name ∈ wls.map (·.metadata.name) ∧ ∀ wl ∈ wls, wl.metadata.name = ro.name → wl.spec = ro.spec := by
  obtain ⟨e, he, rfl⟩ := lastListed_listing (fun e he => (hsaw e he).1) hl
  obtain ⟨wl', hw', hn', hs'⟩ := (hsaw e he).2.workload
  refine ⟨List.mem_map.mpr ⟨wl', mem_listing.mpr hw', hn'⟩, fun wl hm hn => ?_⟩
  obtain rfl : wl = wl' := listing_name_inj hm (mem_listing.mpr hw') (hn.trans hn'.symm)
  exact hs'

theorem listed_draining (hsaw : SawSteady ro tight h) {nodes : List Node}
    (hl : lastListed .node h = some nodes) (m : String) : m ∈ drainingNames nodes ↔ m ∈ ro.draining := by
  obtain ⟨e, he, rfl⟩ := lastListed_listing (fun e he => (hsaw e he).1) hl
  exact mem_drainingNames.trans ((hsaw e he).2.nodes m)

theorem unblocked_of_steady {insts : List Instance} (hi : insts = w₀.store.listing .inst)
    (hz : ro.refused w₀ = 0) {d : List String} (hd : ∀ m, m ∈ d ↔ m ∈ ro.draining) :
    surgeBlocked (classify ro.hash d (insts.filter fun i => i.spec.workload = ro.name)).fresh = false := by
  subst hi
  have hnone : ∀ i ∈ w₀.store.listing .inst, ¬ ro.waits i := List.countP_eq_zero.mp hz
  by_contra hb
  obtain ⟨i, hi, hw⟩ := List.any_eq_true.mp (Bool.eq_true_of_not_eq_false hb)
  obtain ⟨hf, hr⟩ := mem_ofRole.mp (mem_sortNewestFirst.mp hi)
  obtain ⟨hm, hn⟩ := List.mem_filter.mp hf
  refine hnone i hm ?_
  rw [Rollout.waits, is_mine (of_decide_eq_true hn), ← roleOf_congr hd, hr]
  exact hw

theorem sees_pass (hsaw : SawSteady ro tight h) (ht : Tallied ro tight h w) (hn : wl.metadata.name = ro.name)
    (hp : PassOf cfg.hasher h wl container hash g) : hash = ro.hash ∧ ∃ w₀, Steady ro tight w₀ ∧
      StepTally ro (createdSince ro.name h) (retiredSince ro.name h) w₀ w ∧ Sees ro w₀ wl g := by
  obtain ⟨wls, insts, nodes, hwls, hinsts, hnodes, hmem, -, hh, rfl⟩ := hp
  have hspec := (listed_spec hsaw hwls).2 wl hmem hn
  have hdr := listed_draining hsaw hnodes
  rw [hspec, ro.hashed] at hh
  cases hh
  obtain ⟨w₀, hi, hst, htally⟩ := ht insts hinsts
  have hlen : ∀ r, (ofRole ro.hash (drainingNames nodes) r
      (insts.filter fun i => i.spec.workload = ro.name)).length = ro.count w₀ r :=
    fun r => (length_ofRole hdr r insts).trans (by rw [hi]; rfl)
  rw [hn]
  refine ⟨rfl, w₀, hst, htally, hspec, ?_, ?_, hlen .draining, ?_, unblocked_of_steady hi hst.unrefused hdr⟩
  · exact (length_sortNewestFirst _).trans (hlen .fresh)
  · exact (length_sortNewestFirst _).trans (hlen .retiring)
  · have hready : readyIn w₀ ro.name = readyCount (insts.filter fun i => i.spec.workload = ro.name) := by
      unfold readyIn readyCount Store.count
      rw [List.countP_filter, hi]
      refine List.countP_congr fun i _ => ?_
      simp [readyOf, and_comm]
    rw [hready, readyCount_roles ro.hash (drainingNames nodes)]
    exact congrArg₂ (· + ·) (readyCount_sortNewestFirst _).symm (length_sortNewestFirst _).symm

theorem create_room {created retired : ℕ} (hst : Steady ro tight w₀) (ht : StepTally ro created retired w₀ w)
    (hs : Sees ro w₀ wl g) (hm : MayCreate wl g created) : (ro.count w .fresh : Int) + 1 ≤ ro.spec.replicas ∧
    (tight → (ro.count w .fresh : Int) + ro.count w .retiring ≤ ro.spec.replicas) := by
  unfold MayCreate at hm
  rw [hs.spec, hs.fresh, hs.retiring] at hm
  have hret : g.retiring ≠ [] → 0 < ro.count w₀ .retiring := fun hne => by
    rw [← hs.retiring]
    exact List.length_pos_iff.mpr hne
  have hfresh := ht.fresh
  refine ⟨?_, fun htight => ?_⟩
  · rcases hm with hm | ⟨hne, -, hm, hc⟩
    · omega
    · have := hret hne
      omega
  · have hcov := (ht.covered (hst.covered htight).1).2
    rcases hm with hm | ⟨-, -, hm, hc⟩ <;> omega

theorem retire_room {created tried : ℕ} {cur : Instance} (hst : Steady ro tight w₀)
    (ht : StepTally ro created tried w₀ w) (hs : Sees ro w₀ wl g) (hm : MayRetire wl g cur tried) :
    ro.spec.replicas + 1 ≤ readyIn w ro.name ∧ ro.count w .draining = 0 := by
  have hfresh := hst.fresh
  have hready := ht.ready
  have hdrain := ht.draining
  unfold MayRetire at hm
  rw [hs.spec, hs.fresh, hs.retiring, hs.unblocked] at hm
  rcases hm with ⟨hsurplus, -⟩ | ⟨hle, -, hnone, htried, htotal, hall | hb⟩
  · omega
  · -- No surplus, so every fresh instance is READY.
    have hd : ro.count w₀ .draining = 0 := by rw [← hs.draining, hnone]; rfl
    have hr := hs.ready
    rw [hs.retiring] at hr
    rw [min_eq_right hle] at hall
    exact ⟨by omega, by omega⟩
  · cases hb

end Pass

variable {c : Choice}

section Step
variable {cfg : Config} {ro : Rollout cfg.hasher} {tight : Prop} {h : Log} {w w' : World} {op : Op}

/- What a step does to the workload's instances. Only the controller's own steps do more
than move them. -/
inductive SurgeStep (ro : Rollout cfg.hasher) (tight : Prop) (a b : ℕ) (w w' : World) : Prop where
  | moved (ht : StepTally ro 0 0 w w')
  | created (ha : a = 1) (ht : StepTally ro 1 0 w w') (hroom : (ro.count w .fresh : Int) + 1 ≤ ro.spec.replicas)
      (hcov : tight → (ro.count w .fresh : Int) + ro.count w .retiring ≤ ro.spec.replicas)
  | retired (hb : b = 1) (ht : StepTally ro 0 1 w w') (hroom : ro.spec.replicas + 1 ≤ readyIn w ro.name)

section Counts
variable {a b : ℕ} (hs : SurgeStep ro tight a b w w')
include hs

theorem surgeStep_tally : StepTally ro a b w w' := by
  cases hs with
  | moved ht => exact stepTally_mono ht (Nat.zero_le _) (Nat.zero_le _)
  | created ha ht => exact stepTally_mono ht (by omega) (Nat.zero_le _)
  | retired hb ht => exact stepTally_mono ht (Nat.zero_le _) (by omega)

theorem surgeStep_fresh (hf : (ro.count w .fresh : Int) ≤ ro.spec.replicas) :
    (ro.count w' .fresh : Int) ≤ ro.spec.replicas := by
  cases hs with
  | moved ht => have := ht.fresh; omega
  | created ha ht hroom => have := ht.fresh; omega
  | retired hb ht => have := ht.fresh; omega

theorem surgeStep_covered (ht : tight)
    (hc : ro.count w .doomed = 0 ∧ (ro.count w .fresh : Int) + ro.count w .retiring ≤ ro.spec.replicas + 1) :
    ro.count w' .doomed = 0 ∧ (ro.count w' .fresh : Int) + ro.count w' .retiring ≤ ro.spec.replicas + 1 := by
  cases hs with
  | moved hst => have := hst.covered hc.1; exact ⟨this.1, by omega⟩
  | created ha hst hroom hcov => have := hst.covered hc.1; have := hcov ht; exact ⟨by omega, by omega⟩
  | retired hb hst => have := hst.covered hc.1; exact ⟨this.1, by omega⟩

theorem surgeStep_ready {k : Int} (hk : min ro.spec.replicas k ≤ readyIn w ro.name) :
    min ro.spec.replicas k ≤ readyIn w' ro.name := by
  cases hs with
  | moved ht => have := ht.ready; omega
  | created ha ht => have := ht.ready; omega
  | retired hb ht hroom => have := ht.ready; omega

end Counts

theorem creates_one {o : Instance} (ho : o.spec.workload = ro.name)
    (hrev : w.store.rev ≠ (exec c (.put .inst o revCreate) w).2.store.rev) :
    creates ro.name (klited.event c (.put .inst o revCreate) w) = 1 := by
  show one (decide _) = 1
  rw [decide_eq_true ⟨ho, rfl, hrev⟩]
  rfl

theorem triesRetire_one {o : Instance} {rev : Int} (ho : o.spec.workload = ro.name) (hrev : rev ≠ revCreate) :
    triesRetire ro.name (klited.event c (.put .inst o rev) w) = 1 := by
  show one (decide _) = 1
  rw [decide_eq_true ⟨ho, hrev⟩]
  rfl

theorem surgeStep_own (hsaw : SawSteady ro tight h) (ht : Tallied ro tight h w) (hst : Steady ro tight w)
    (hch : Change (workloadRights cfg.hasher) h w op (exec c op w).2.store) :
    SurgeStep ro tight (creates ro.name (klited.event c op w)) (triesRetire ro.name (klited.event c op w))
      w (exec c op w).2 := by
  have hnone : ∀ i ∈ (none : Option Instance), i.spec.workload ≠ ro.name := fun i hi => by cases hi
  have hsome : ∀ {i : Instance}, i.spec.workload ≠ ro.name → ∀ j ∈ some i, j.spec.workload ≠ ro.name := by
    rintro i hi _ ⟨⟩
    exact hi
  rcases change_swap hch .inst with
    hs | ⟨o, rfl, ⟨wl, container, hash, g, name, hpass, hmay, rfl⟩, hrev, hs⟩ |
    ⟨cur, o, rfl, hn, ⟨hready, wl, container, hash, g, reason, hpass, hmay, rfl⟩, hs⟩ |
    ⟨cur, ⟨wls, insts, hwls, hinsts, hrem⟩, hs⟩
  · exact .moved (stepTally_swap hs (swapTally_other 0 0 hnone hnone))
  · by_cases hwl : wl.metadata.name = ro.name
    · obtain ⟨rfl, w₀, hst₀, htally, hsees⟩ := sees_pass hsaw ht hwl hpass
      rw [hwl] at hmay
      obtain ⟨hroom, hcov⟩ := create_room hst₀ htally hsees hmay
      exact .created (creates_one hwl hrev)
        (stepTally_swap hs (swapTally_created (empty_not_draining hst.toRolling) 0 hwl rfl rfl rfl)) hroom hcov
    · exact .moved (stepTally_swap hs (swapTally_other 0 0 hnone (hsome hwl)))
  · have hmine := mayRetire_workload hpass hmay
    by_cases hwl : wl.metadata.name = ro.name
    · obtain ⟨rfl, w₀, hst₀, htally, hsees⟩ := sees_pass hsaw ht hwl hpass
      rw [hwl] at hmay hmine
      obtain ⟨hroom, -⟩ := retire_room hst₀ htally hsees hmay
      have hpos := (lookup_some (hs.held cur rfl)).2.2.2.1
      exact .retired (triesRetire_one hmine (by unfold revCreate; omega))
        (stepTally_swap hs (swapTally_stamp (swapTally_retired 0 reason hmine))) hroom
    · rw [← hmine] at hwl
      exact .moved (stepTally_swap hs (swapTally_other 0 0 (hsome hwl) (hsome hwl)))
  · by_cases hc : cur.spec.workload = ro.name
    · refine .moved (stepTally_swap hs (swapTally_removed 0 0 (hrem.2 ?_)))
      rw [hc]
      exact (listed_spec hsaw hwls).1
    · exact .moved (stepTally_swap hs (swapTally_other 0 0 (hsome hc) hnone))

end Step

variable {w : World}

section Run
variable {cfg : Config} (ro : Rollout cfg.hasher)

-- A controller starts only when no other is at work.
def OneController (s : Klited) : Step → Prop
  | .spawn g => g.isWorkload → ∀ t th op, s.Calls t th op → th.tag.isWorkload = false
  | _ => True

def StepsForward (s : Klited) : Step → Prop
  | .step t _ => ∀ th op, s.Calls t th op → WritesForward ro th.tag s.world op
  | _ => True

/- The controller, the scheduler and the agents' reports run, and the clock moves. The
scheduler only binds, to nodes that are not draining, and reports only move phases forward. -/
structure SurgeCond (s : Klited) (l : Step) : Prop where
  admits : Admits (fun g => g.rolls) l
  one : OneController s l
  forward : StepsForward ro s l

structure SurgeRun (tight : Prop) (k : Int) (s : Klited) : Prop where
  sound : Sound cfg s
  running : Running (fun g => g.rolls) s
  past : Past (fun a b => Steady ro tight b → Steady ro tight a) s
  steady : Steady ro tight s.world
  single : ∀ t t' th th' op op', s.Calls t th op → s.Calls t' th' op' → th.tag.isWorkload →
    th'.tag.isWorkload → t = t'
  tallied : ∀ t th op, s.Calls t th op → th.tag.isWorkload → Tallied ro tight th.hist s.world
  ready : min ro.spec.replicas k ≤ readyIn s.world ro.name

variable {ro} {tight : Prop} {k : Int} {s : Klited} {l : Step}

theorem sawSteady_of_run (hr : SurgeRun ro tight k s) {t : ℕ} {th : Proc} (hth : s.threads[t]? = some th) :
    SawSteady ro tight th.hist :=
  fun e he => ⟨((hr.sound.recorded th (List.mem_of_getElem? hth)).1 e he).2, hr.past t th hth e he hr.steady⟩

section Next
variable (hr : SurgeRun ro tight k s) (hl : SurgeCond ro s l)
include hr hl

theorem surgeStep_next : SurgeStep ro tight 0 0 s.world (s.next (body cfg) l).world ∨
    ∃ t c th op, l = .step t c ∧ s.Calls t th op ∧ th.tag.isWorkload ∧
      SurgeStep ro tight (creates ro.name (klited.event c op s.world))
        (triesRetire ro.name (klited.event c op s.world)) s.world (s.next (body cfg) l).world := by
  rcases next_store hr.sound hr.running rolls_modelled hl.admits with
    hs | ⟨t, c, th, op, rfl, hcall, hA, -, hw, hch⟩
  · exact Or.inl (.moved (stepTally_same hs))
  · cases hown : th.tag.isWorkload with
    | false =>
      exact Or.inl (.moved (tally_others (empty_not_draining hr.steady.toRolling) hA hown hch
        (hl.forward th op hcall)))
    | true =>
      refine Or.inr ⟨t, c, th, op, rfl, hcall, hown, ?_⟩
      have hrights : rights cfg th.tag = workloadRights cfg.hasher := by
        cases htag : th.tag with
        | workload order passes => rfl
        | _ => rw [htag] at hown; cases hown
      rw [hw] at hch ⊢
      rw [hrights] at hch
      exact surgeStep_own (sawSteady_of_run hr hcall.1) (hr.tallied t th op hcall hown) hr.steady hch

theorem rolling_records :
    (∃ wl : Workload, Holds (s.next (body cfg) l).world.store .workload wl ∧ wl.metadata.name = ro.name ∧
      wl.spec = ro.spec) ∧ ∀ m, phaseAt (s.next (body cfg) l).world m = some .draining ↔ m ∈ ro.draining := by
  obtain ⟨wl, hw, hn, hspec⟩ := hr.steady.workload
  rcases next_store hr.sound hr.running rolls_modelled hl.admits with
    hs | ⟨t, c, th, op, rfl, hcall, hA, -, -, hch⟩
  · unfold phaseAt
    rw [hs]
    exact ⟨⟨wl, hw, hn, hspec⟩, hr.steady.nodes⟩
  · obtain ⟨wl', hw', hn', hspec'⟩ := workload_kept hA hch hw
    exact ⟨⟨wl', hw', hn'.trans hn, hspec'.trans hspec⟩,
      fun m => (draining_kept hA hch m).trans (hr.steady.nodes m)⟩

theorem steady_next : Steady ro tight (s.next (body cfg) l).world ∧
      min ro.spec.replicas k ≤ readyIn (s.next (body cfg) l).world ro.name := by
  obtain ⟨hw, hn⟩ := rolling_records hr hl
  have key : ∀ {a b : ℕ}, SurgeStep ro tight a b s.world (s.next (body cfg) l).world →
      Steady ro tight (s.next (body cfg) l).world ∧
        min ro.spec.replicas k ≤ readyIn (s.next (body cfg) l).world ro.name :=
    fun hs => ⟨⟨⟨hw, hn, surgeStep_fresh hs hr.steady.fresh, (surgeStep_tally hs).refused hr.steady.unrefused⟩,
      fun ht => surgeStep_covered hs ht (hr.steady.covered ht)⟩, surgeStep_ready hs hr.ready⟩
  rcases surgeStep_next hr hl with hs | ⟨t, c, th, op, -, -, -, hs⟩
  · exact key hs
  · exact key hs

theorem single_next {t t' : ℕ} {th th' : Proc} {op op' : Op} (hc : (s.next (body cfg) l).Calls t th op)
    (hc' : (s.next (body cfg) l).Calls t' th' op') (hw : th.tag.isWorkload) (hw' : th'.tag.isWorkload) : t = t' := by
  have hone := hl.one
  rcases calls_next (body cfg) hc with ⟨th₁, op₁, hc₁, ht₁⟩ | ⟨rfl, ht⟩ <;>
    rcases calls_next (body cfg) hc' with ⟨th₂, op₂, hc₂, ht₂⟩ | ⟨he, ht'⟩
  · exact hr.single t t' th₁ th₂ op₁ op₂ hc₁ hc₂ (ht₁ ▸ hw) (ht₂ ▸ hw')
  · subst he
    have hno := hone hw' t th₁ op₁ hc₁
    rw [← ht₁, hw] at hno
    cases hno
  · have hno := hone hw t' th₂ op₂ hc₂
    rw [← ht₂, hw'] at hno
    cases hno
  · rw [ht, ht']

end Next

theorem tallied_own {h : Log} {op : Op} (hst : Steady ro tight w) (ht : Tallied ro tight h w)
    (hs : StepTally ro (creates ro.name (klited.event c op w)) (triesRetire ro.name (klited.event c op w)) w (exec c op w).2) :
    Tallied ro tight (klited.event c op w :: h) (exec c op w).2 := by
  intro insts hlast
  cases hl : listedBy .inst (klited.event c op w) with
  | some l =>
    have hil : insts = l := by
      unfold lastListed at hlast
      rw [List.findSome?_cons, hl] at hlast
      exact (Option.some.inj hlast).symm
    refine ⟨w, hil.trans (listedBy_listing hl), hst, ?_⟩
    rw [listedBy_world hl]
    exact stepTally_refl _ _ w
  | none =>
    rw [lastListed_cons hl] at hlast
    obtain ⟨w₀, hi, hst₀, htally⟩ := ht insts hlast
    refine ⟨w₀, hi, hst₀, ?_⟩
    unfold createdSince retiredSince
    rw [tally_other hl, tally_other hl]
    exact stepTally_trans htally hs

theorem tallied_next (hr : SurgeRun ro tight k s) (hl : SurgeCond ro s l) {u : ℕ} {th' : Proc} {op' : Op}
    (hc : (s.next (body cfg) l).Calls u th' op') (hw : th'.tag.isWorkload) :
    Tallied ro tight th'.hist (s.next (body cfg) l).world := by
  obtain ⟨hth', k', hk'⟩ := hc
  rcases next_thread (body cfg) hth' with
    ⟨th, hth, htag, hh, hprog⟩ | ⟨g, -, rfl⟩ | ⟨c, th, op, k₁, rfl, hth, hp, rfl⟩
  · have hcall : s.Calls u th op' := by
      rcases hprog with hprog | hprog
      · exact ⟨hth, k', hprog.symm.trans hk'⟩
      · rw [hprog] at hk'
        cases hk'
    have hold := hr.tallied u th op' hcall (htag ▸ hw)
    rcases surgeStep_next hr hl with hs | ⟨t, c, th₂, op₂, rfl, hcall₂, hw₂, hs⟩
    · rw [hh]
      intro insts hlast
      obtain ⟨w₀, hi, hst₀, htally⟩ := hold insts hlast
      exact ⟨w₀, hi, hst₀, stepTally_trans htally (surgeStep_tally hs)⟩
    · -- The one controller made this call, and its history shows it.
      exfalso
      obtain rfl := hr.single t u th₂ th op₂ op' hcall₂ hcall hw₂ (htag ▸ hw)
      obtain ⟨hth₂, k₂, hp₂⟩ := hcall₂
      obtain rfl := Option.mem_unique hth₂ hth
      rw [next_call (body cfg) hth hp₂, List.getElem?_set_self (List.getElem?_eq_some_iff.mp hth).1] at hth'
      cases hth'
      exact List.cons_ne_self _ _ hh
  · nofun
  · have hcall : s.Calls u th op := ⟨hth, k₁, hp⟩
    have hs : StepTally ro (creates ro.name (klited.event c op s.world))
        (triesRetire ro.name (klited.event c op s.world)) s.world (exec c op s.world).2 := by
      have hworld : (s.next (body cfg) (.step u c)).world = (exec c op s.world).2 := by
        rw [next_call (body cfg) hth hp]
      rw [← hworld]
      rcases surgeStep_next hr hl with hs | ⟨t, c', th₂, op₂, he, hcall₂, -, hs⟩
      · exact stepTally_mono (surgeStep_tally hs) (Nat.zero_le _) (Nat.zero_le _)
      · obtain ⟨rfl, rfl⟩ := Label.step.inj he
        obtain ⟨-, rfl⟩ := calls_inj hcall hcall₂
        exact surgeStep_tally hs
    rw [next_call (body cfg) hth hp]
    exact tallied_own hr.steady (hr.tallied u th op hcall hw) hs

theorem surgeRun_next (hr : SurgeRun ro tight k s) (hl : SurgeCond ro s l) :
    SurgeRun ro tight k (s.next (body cfg) l) := by
  obtain ⟨hst, hready⟩ := steady_next hr hl
  exact ⟨sound_next l hr.sound, running_next hr.running hl.admits,
    past_next (fun _ h => h) (fun hab hbc h => hab (hbc h)) (fun _ => hr.steady) hr.past, hst,
    fun t t' th th' op op' hc hc' hw hw' => single_next hr hl hc hc' hw hw',
    fun t th op hc hw => tallied_next hr hl hc hw, hready⟩

def MarksDraining (ro : Rollout cfg.hasher) (w w' : World) : Prop :=
  ∃ i i' : Instance, Holds w.store .inst i ∧ Holds w'.store .inst i' ∧ i'.metadata.name = i.metadata.name ∧
    i.spec.workload = ro.name ∧ i.phase ≠ .draining ∧ i'.phase = .draining

theorem marks_alone (hr : SurgeRun ro tight k s) (hl : SurgeCond ro s l)
    (hm : MarksDraining ro s.world (s.next (body cfg) l).world) : ro.count s.world .draining = 0 := by
  obtain ⟨i, i', hi, hi', hname, hw, hnd, hd⟩ := hm
  have hsame : ∀ {j : Instance}, Holds s.world.store .inst j → j.metadata.name = i.metadata.name → j = i :=
    fun hj hn => listing_name_inj (mem_listing.mpr hj) (mem_listing.mpr hi) hn
  rcases next_store hr.sound hr.running rolls_modelled hl.admits with
    hs | ⟨t, c, th, op, rfl, hcall, hA, -, -, hch⟩
  · rw [hs] at hi'
    exact absurd (hsame hi' hname ▸ hd) hnd
  · rcases change_holds hch hi' with hold | ⟨o, -, -, hc, rfl⟩ | ⟨cur, o, rfl, hcur, he, hn, rfl⟩
    · exact absurd (hsame hold hname ▸ hd) hnd
    · have hp := (inst_create (rolls_modelled _ hA) hc).2.1
      exact absurd (hp.symm.trans hd) (by decide)
    · obtain rfl := hsame hcur (hn.symm.trans hname)
      cases htag : th.tag with
      | workload order passes =>
        rw [htag] at he
        obtain ⟨-, wl, container, hash, g, reason, hpass, hmay, -⟩ := he
        have hwl := (mayRetire_workload hpass hmay).symm.trans hw
        have hown : th.tag.isWorkload := by rw [htag]; rfl
        obtain ⟨-, w₀, hst₀, htally, hsees⟩ :=
          sees_pass (sawSteady_of_run hr hcall.1) (hr.tallied t th _ hcall hown) hwl hpass
        rw [hwl] at hmay
        exact (retire_room hst₀ htally hsees hmay).2
      | _ =>
        have hown : th.tag.isWorkload = false := by rw [htag]; rfl
        obtain ⟨hsched, hrep⟩ := hl.forward th _ hcall o cur rfl hcur hn.symm hw
        have hmoves := moves_edit (empty_not_draining hr.steady.toRolling)
          (inst_edit (rolls_modelled _ hA) he) hown hsched hrep
        exact absurd (hmoves.draining.mp hd) hnd

/- The instances are fresh or READY, one more than asked for at most. -/
def Tight (ro : Rollout cfg.hasher) (w : World) : Prop :=
  (∀ i : Instance, Holds w.store .inst i → i.spec.workload = ro.name → i.phase ≠ .ready →
    roleOf ro.hash ro.draining i = .fresh) ∧
  (ro.count w .fresh : Int) + ro.count w .retiring ≤ ro.spec.replicas + 1

theorem tight_covered (h : Tight ro w) : ro.count w .doomed = 0 := by
  refine count_eq_zero w.store fun i hi => ?_
  by_cases hn : i.spec.workload = ro.name
  · rw [is_mine hn, decide_eq_false]
    intro hd
    have hf := h.1 i hi hn (roleOf_doomed hd)
    rw [hd] at hf
    cases hf
  · exact is_other hn .doomed

end Run

/-- In every state of a run of one controller, the scheduler and forward reports: no fewer are
READY than were at the start or are asked for, a rollout step marks none while another
drains, the fresh ones stay within the replicas, and with the READY outdated ones they
stay within one more. -/
theorem rollout_never_dips (cfg : Config) (ro : Rollout cfg.hasher) (w : World) (hw : Rolling ro w)
    (ls : List Step) (hls : Along (body cfg) (SurgeCond ro) (start w) ls) :
    let s := (start w).run (body cfg) ls
    min ro.spec.replicas (readyIn w ro.name) ≤ readyIn s.world ro.name ∧
    (∀ l, SurgeCond ro s l → MarksDraining ro s.world (s.next (body cfg) l).world →
      ro.count s.world .draining = 0) ∧
    (ro.count s.world .fresh : Int) ≤ ro.spec.replicas ∧
    (Tight ro w → (ro.count s.world .fresh : Int) + ro.count s.world .retiring ≤ ro.spec.replicas + 1) := by
  intro s
  have hstart : SurgeRun ro (Tight ro w) (readyIn w ro.name) (start w) := by
    have hno : ∀ (t : ℕ) (th : Proc) (op : Op), ¬ (start w).Calls t th op := fun t th op hc => by
      cases hc.1
    exact ⟨sound_start w, fun th hth => (by cases hth), fun u th hth => (by cases hth),
      ⟨hw, fun ht => ⟨tight_covered ht, ht.2⟩⟩, fun t _ th _ op _ hc => absurd hc (hno t th op),
      fun t th op hc => absurd hc (hno t th op), min_le_right _ _⟩
  have hr : SurgeRun ro (Tight ro w) (readyIn w ro.name) s :=
    run_invariant (body cfg) _ _ (fun _ _ hs hl => surgeRun_next hs hl) (start w) ls hstart hls
  exact ⟨hr.ready, fun l hl hm => marks_alone hr hl hm, hr.steady.fresh, fun ht => (hr.steady.covered ht).2⟩

section Runs

def webRollout (draining : List String) : Rollout plainConfig.hasher where
  name := "web"
  spec := { replicas := 1, template := { containers := [{}] } }
  hash := "h"
  draining := draining
  hashed := rfl

def webWorkload : Workload where
  metadata := { name := "web" }
  spec := { replicas := 1, template := { containers := [{}] } }

def runningInstance (node hash : String) : Instance where
  metadata := { name := "web-1a2b" }
  spec := { workload := "web", node := node, templateHash := hash }
  status := some { phase := .ready }

def refusedInstance : Instance where
  metadata := { name := "web-3c4d" }
  spec := { workload := "web", templateHash := "h" }
  status := some { phase := .pending, message := msgNoCapacity }

def refusedWorld : World :=
  ⟨(((Store.empty.put 7 .workload webWorkload revCreate).2.put 7 .inst (runningInstance "a" "old")
    revCreate).2.put 7 .inst refusedInstance revCreate).2, 7 * second⟩

theorem workload_of_check {n : String} {spec : WorkloadSpec}
    (hw : (w.store.lookup .workload n).map (fun e => Workload.spec e.1) = some spec) :
    ∃ wl : Workload, Holds w.store .workload wl ∧ wl.metadata.name = n ∧ wl.spec = spec := by
  obtain ⟨⟨wl, r⟩, hl, he⟩ := Option.map_eq_some_iff.mp hw
  exact ⟨wl, holds_of_lookup hl, (lookup_some hl).1, he⟩

theorem nodes_of_check {d : List String} (h : drainingNames (w.store.listing .node) = d) (m : String) :
    phaseAt w m = some .draining ↔ m ∈ d := by
  rw [← h]
  exact mem_drainingNames.symm

instance (a b : InstancePhase) : Decidable (Forward a b) := by unfold Forward; infer_instance

def surgeCheck (d : List String) (s : Klited) (l : Step) : Bool :=
  admitsCheck Call.rolls l &&
  match l with
  | .spawn g => !g.isWorkload || (List.range s.threads.length).all fun t =>
      (standsAt s t).isNone || !((s.threads[t]?.map Thread.tag).any Call.isWorkload)
  | .step t _ =>
    match s.threads[t]?.map Thread.tag, standsAt s t with
    | some .scheduler, some (.put .inst o _) => o.spec.node ≠ "" && o.spec.node ∉ d
    | some (.reportStatus _ _), some (.put .inst o _) =>
      (s.world.store.lookup .inst (metaOf (k := .inst) o).name).all fun e =>
        decide (Forward (Instance.phase e.1) (Instance.phase o))
    | _, _ => true
  | _ => true

theorem surgeCond_of_check {cfg : Config} {ro : Rollout cfg.hasher} (s : Klited) (l : Step)
    (h : surgeCheck ro.draining s l) : SurgeCond ro s l := by
  simp only [surgeCheck, Bool.and_eq_true] at h
  obtain ⟨hadm, h⟩ := h
  refine ⟨admits_of_check hadm, ?_, ?_⟩
  · cases l with
    | spawn g =>
      intro hg t th op hc
      dsimp only at h
      rw [hg, Bool.not_true, Bool.false_or, List.all_eq_true] at h
      have ht := h t (List.mem_range.mpr (List.getElem?_eq_some_iff.mp hc.1).1)
      rw [standsAt_of_calls hc, hc.1] at ht
      simpa using ht
    | _ => trivial
  · cases l with
    | step t c =>
      rintro th op hc o cur rfl hcur hn -
      dsimp only at h
      rw [standsAt_of_calls hc, hc.1, Option.map_some] at h
      refine ⟨fun htag => ?_, fun p req htag => ?_⟩
      · rw [htag] at h
        simpa using h
      · rw [htag] at h
        dsimp only at h
        have hl : s.world.store.lookup .inst (metaOf (k := .inst) o).name =
            some (cur, cur.metadata.resourceVersion) := by
          rw [← show (metaOf (k := .inst) cur).name = (metaOf (k := .inst) o).name from hn]
          exact hcur
        rw [hl] at h
        simpa using h
    | _ => trivial

def passOnce (t : ℕ) : List Step :=
  [.spawn (.workload (fun _ names => names) 1), .step t {}, .step t {}, .step t {}, .step t {},
    .step t {}, .step t {}]

-- A refusal that is on record from before is enough for the fallback.
theorem dips_after_refusal : (∃ wl : Workload, Holds refusedWorld.store .workload wl ∧ wl.metadata.name = "web" ∧
      wl.spec = (webRollout []).spec) ∧ (∀ m, phaseAt refusedWorld m = some .draining ↔ m ∈ (webRollout []).draining) ∧
    ((webRollout []).count refusedWorld .fresh : Int) ≤ (webRollout []).spec.replicas ∧
    Along (body plainConfig) (SurgeCond (webRollout [])) (start refusedWorld) (passOnce 0) ∧
    ¬ min (webRollout []).spec.replicas (readyIn refusedWorld "web") ≤
      readyIn (plainRun refusedWorld (passOnce 0)).world "web" := by
  refine ⟨workload_of_check (by decide +kernel), nodes_of_check (by decide +kernel),
    by decide +kernel, ?_, by decide +kernel⟩
  exact along_of_check (body plainConfig) surgeCond_of_check _ _ (by decide +kernel)

def drainedWorld : World :=
  ⟨((((Store.empty.put 7 .workload webWorkload revCreate).2.put 7 .inst (runningInstance "b" "h")
    revCreate).2.put 7 .node
      { metadata := { name := "a" }, spec := { maxInstances := 4 }, status := some { phase := .ready } }
    revCreate).2.put 7 .node { metadata := { name := "b" }, status := some { phase := .draining } }
    revCreate).2, 7 * second⟩

def surgeSteps : List Step :=
  passOnce 0 ++ [.spawn .scheduler, .step 1 {}, .step 1 {}, .step 1 {}, .step 1 {},
    .spawn (.reportStatus (.node "a") { node := "a", instances := [⟨"web-", 5, some { phase := .ready }⟩] }),
    .step 2 {}, .step 2 {}] ++ passOnce 3

theorem rollout_never_dips_drained : 1 ≤ readyIn (plainRun drainedWorld surgeSteps).world "web" ∧
    (webRollout ["b"]).count (plainRun drainedWorld surgeSteps).world .draining = 1 := by
  have hw : Rolling (webRollout ["b"]) drainedWorld :=
    ⟨workload_of_check (by decide +kernel), nodes_of_check (by decide +kernel), by decide +kernel,
      by decide +kernel⟩
  have hrun := rollout_never_dips plainConfig (webRollout ["b"]) drainedWorld hw surgeSteps
    (along_of_check (body plainConfig) surgeCond_of_check _ _ (by decide +kernel))
  refine ⟨?_, by decide +kernel⟩
  have hmin : min (webRollout ["b"]).spec.replicas (readyIn drainedWorld "web") = 1 := by decide +kernel
  have hready := hrun.1
  rw [show (webRollout ["b"]).name = "web" from rfl, hmin] at hready
  exact Int.ofNat_le.mp hready

end Runs

end Klite
