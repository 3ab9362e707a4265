import Klite.Controller.Roles
import Klite.Controller.Workload
import Klite.Store.Listings

/-!
# What the workload controller may do

Everything a pass does is about the workloads and instances it listed: it creates instances
of listed workloads, drains listed instances that are READY, and removes listed instances
that are not READY or whose workload is not listed.
-/

namespace Klite
open Lib

-- Adds up a caller's own calls since it last listed the instances.
def tally (f : Event Op Res World → ℕ) : Log → ℕ
  | [] => 0
  | e :: h => if (listedBy .inst e).isSome then 0 else tally f h + f e

def triesRetire (n : String) (e : Event Op Res World) : ℕ :=
  match e.op with
  | .put .inst o rev => one (o.spec.workload = n ∧ rev ≠ revCreate)
  | _ => 0

def creates (n : String) (e : Event Op Res World) : ℕ :=
  match e.op with
  | .put .inst o rev =>
    one (o.spec.workload = n ∧ rev = revCreate ∧ e.pre.store.rev ≠ e.post.store.rev)
  | _ => 0

def retiredSince (n : String) (h : Log) : ℕ := tally (triesRetire n) h

def createdSince (n : String) (h : Log) : ℕ := tally (creates n) h

theorem tally_other {f : Event Op Res World → ℕ} {e : Event Op Res World} {h : Log}
    (hl : listedBy .inst e = none) : tally f (e :: h) = tally f h + f e := by
  rw [tally, hl]
  rfl

theorem tally_listed {f : Event Op Res World → ℕ} {e : Event Op Res World} {h : Log}
    {l : List Instance} (hl : listedBy .inst e = some l) : tally f (e :: h) = 0 := by
  rw [tally, hl]
  rfl

/- The calls from one point of a pass to a later one listed nothing, and of the workloads
in `K` they neither created nor tried to retire an instance. -/
structure Leaves (K : String → Prop) (h h' : Log) : Prop where
  lists : SameLists h h'
  kept : ∀ n, K n → createdSince n h' = createdSince n h ∧ retiredSince n h' = retiredSince n h

section Leaves
variable {K : String → Prop} {h h' h'' : Log}

theorem leaves_refl (h : Log) : Leaves K h h := ⟨sameLists_refl h, fun _ _ => ⟨rfl, rfl⟩⟩

theorem leaves_trans (a : Leaves K h h') (b : Leaves K h' h'') : Leaves K h h'' :=
  ⟨sameLists_trans a.lists b.lists,
    fun n hn => ⟨(b.kept n hn).1.trans (a.kept n hn).1, (b.kept n hn).2.trans (a.kept n hn).2⟩⟩

theorem leaves_mono {K' : String → Prop} (hk : ∀ n, K' n → K n) (a : Leaves K h h') : Leaves K' h h' :=
  ⟨a.lists, fun n hn => a.kept n (hk n hn)⟩

theorem leaves_event {c : Choice} {op : Op} {w : World} (hl : ∀ k, op ≠ .list k)
    (hp : ∀ o rev, op ≠ .put .inst o rev) : Leaves K h (klited.event c op w :: h) := by
  refine ⟨sameLists_event hl, fun n _ => ?_⟩
  unfold createdSince retiredSince
  rw [tally_other (listedBy_of_not_list hl), tally_other (listedBy_of_not_list hl)]
  have h0 : creates n (klited.event c op w) = 0 ∧ triesRetire n (klited.event c op w) = 0 := by
    cases op with
    | put k o rev =>
      cases k with
      | inst => exact absurd rfl (hp o rev)
      | _ => exact ⟨rfl, rfl⟩
    | _ => exact ⟨rfl, rfl⟩
  omega

theorem leaves_put {c : Choice} {w : World} {o : Instance} {rev : Int}
    (hk : ∀ n, K n → o.spec.workload ≠ n) : Leaves K h (klited.event c (.put .inst o rev) w :: h) := by
  have hl : ∀ k, Op.put .inst o rev ≠ .list k := nofun
  refine ⟨sameLists_event hl, fun n hn => ?_⟩
  have hne : ∀ p : Prop, ¬ (o.spec.workload = n ∧ p) := fun p hp => hk n hn hp.1
  unfold createdSince retiredSince
  rw [tally_other (listedBy_of_not_list hl), tally_other (listedBy_of_not_list hl)]
  have hc : creates n (klited.event c (.put .inst o rev) w) = 0 := by
    show one (decide _) = 0
    rw [decide_eq_false (hne _)]
    rfl
  have hr : triesRetire n (klited.event c (.put .inst o rev) w) = 0 := by
    show one (decide _) = 0
    rw [decide_eq_false (hne _)]
    rfl
  omega

theorem createdSince_put (c : Choice) (w : World) (o : Instance) (rev : Int) (n : String) :
    createdSince n (klited.event c (.put .inst o rev) w :: h) ≤ createdSince n h + 1 := by
  unfold createdSince
  rw [tally_other (listedBy_of_not_list fun k hk => by cases hk)]
  have hone : ∀ b, one b ≤ 1 := fun b => by cases b <;> decide
  exact Nat.add_le_add_left (hone _) _

theorem createdSince_refused {c : Choice} {w : World} {o : Instance} {rev : Int} (n : String)
    (hw : (exec c (.put .inst o rev) w).2 = w) :
    createdSince n (klited.event c (.put .inst o rev) w :: h) = createdSince n h := by
  unfold createdSince
  rw [tally_other (listedBy_of_not_list fun k hk => by cases hk)]
  have hz : creates n (klited.event c (.put .inst o rev) w) = 0 := by
    show one (decide _) = 0
    rw [decide_eq_false fun hp => hp.2.2 (congrArg (fun w : World => w.store.rev) hw.symm)]
    rfl
  omega

end Leaves

section Rights
variable (hs : Hasher)

def PassOf (h : Log) (w : Workload) (container : Container) (hash : String) (g : Groups) : Prop :=
  ∃ wls insts nodes, lastListed .workload h = some wls ∧ lastListed .inst h = some insts ∧
    lastListed .node h = some nodes ∧ w ∈ wls ∧ w.spec.template.containers = [container] ∧
    hs.templateHash w.spec.template = .ok hash ∧
    g = classify hash (drainingNames nodes) (insts.filter fun i => i.spec.workload = w.metadata.name)

/- A refill creates up to the replica count; the surge creates one beyond what the
retiring instances cover. -/
def MayCreate (w : Workload) (g : Groups) (created : ℕ) : Prop :=
  (g.fresh.length : Int) + g.retiring.length + created < w.spec.replicas ∨
  (g.retiring ≠ [] ∧ g.draining = [] ∧
    (g.fresh.length : Int) + g.retiring.length = w.spec.replicas ∧ created = 0)

/- A surplus instance, or the victim of a rollout step: the first one the pass retires. -/
def MayRetire (w : Workload) (g : Groups) (cur : Instance) (tried : ℕ) : Prop :=
  ((g.fresh.length : Int) > w.spec.replicas ∧ cur ∈ g.fresh) ∨
  ((g.fresh.length : Int) ≤ w.spec.replicas ∧ cur ∈ g.retiring ∧ g.draining = [] ∧ tried = 0 ∧
    (g.fresh.length : Int) + g.retiring.length > w.spec.replicas ∧
    ((readyCount g.fresh : Int) ≥ min w.spec.replicas g.fresh.length ∨ surgeBlocked g.fresh))

def Removable (wls : List Workload) (insts : List Instance) (inst : Instance) : Prop :=
  inst ∈ insts ∧ (inst.spec.workload ∈ wls.map (·.metadata.name) → inst.phase ≠ .ready)

def workloadRights : Rights where
  create
    | .inst, h, _, o => ∃ wl container hash g name, PassOf hs h wl container hash g ∧
        MayCreate wl g (createdSince wl.metadata.name h) ∧ o = newInstance wl container hash name
    | _, _, _, _ => False
  edit
    | .inst, h, _, cur, new => Instance.phase cur = .ready ∧ ∃ wl container hash g reason,
        PassOf hs h wl container hash g ∧ MayRetire wl g cur (retiredSince wl.metadata.name h) ∧
        new = markedRetired cur reason
    | .workload, h, _, cur, new => (∃ wls, lastListed .workload h = some wls ∧ cur ∈ wls) ∧
        ∃ st, new = { cur with status := some st }
    | _, _, _, _, _ => False
  remove
    | .inst, h, _, cur => ∃ wls insts, lastListed .workload h = some wls ∧
        lastListed .inst h = some insts ∧ Removable wls insts cur
    | _, _, _, _ => False

end Rights

structure InPass (h : Log) (wls : List Workload) (insts : List Instance) (nodes : List Node) : Prop where
  workloads : Listed h .workload wls
  instances : Listed h .inst insts
  nodes : Listed h .node nodes

section Pass
variable {hs : Hasher} {h : Log} {wls : List Workload} {insts : List Instance} {nodes : List Node}

theorem inPass_same {h' : Log} (hp : InPass h wls insts nodes) (hsame : SameLists h h') : InPass h' wls insts nodes :=
  ⟨listed_same hp.workloads hsame, listed_same hp.instances hsame, listed_same hp.nodes hsame⟩

theorem obeys_deleteInstance (hp : InPass h wls insts nodes) (p : Progress) (inst : Instance)
    (hr : Removable wls insts inst) : Obeys (workloadRights hs) (fun h' _ => Leaves (fun _ => True) h h')
      (deleteInstance p inst) h := by
  refine obeys_deleteIfRevision (fun w ha => within_remove (k := .inst)
    (hp.instances.seen inst hr.1) ha ⟨wls, insts, hp.workloads.last, hp.instances.last, hr⟩) ?_
  intro c w r _
  have hl : Leaves (fun _ => True) h
      (klited.event c (.deleteIfRevision .inst inst.metadata.name inst.metadata.resourceVersion) w :: h) :=
    leaves_event (fun k hk => by cases hk) fun o rev ho => by cases ho
  cases r with
  | ok _ => exact hl
  | error e =>
    dsimp only
    split <;> exact hl

theorem obeys_expireDrain (hp : InPass h wls insts nodes) (p : Progress) (inst : Instance)
    (hi : inst ∈ insts) (hd : inst.phase = .draining) :
    Obeys (workloadRights hs) (fun h' _ => Leaves (fun _ => True) h h') (expireDrain p inst) h := by
  have hnow : ∀ (c : Choice) (w : World), Leaves (fun _ => True) h (klited.event c Op.now w :: h) :=
    fun c w => leaves_event (fun k hk => by cases hk) fun o rev ho => by cases ho
  unfold expireDrain
  split
  · refine obeys_quiet rfl ?_
    intro c w t _ _
    exact hnow c w
  · refine obeys_quiet rfl ?_
    intro c w t _ _
    dsimp only
    split
    · exact hnow c w
    · refine follows_post (fun h' _ hq => leaves_trans (hnow c w) hq)
        (obeys_deleteInstance (inPass_same hp (hnow c w).lists) p inst ⟨hi, fun _ => ?_⟩)
      rw [hd]
      exact fun he => by cases he

section Workload
variable {w : Workload} {container : Container} {hash : String} {g : Groups}

theorem passOf_same {h' : Log} (hp : PassOf hs h w container hash g) (hsame : SameLists h h') :
    PassOf hs h' w container hash g := by
  obtain ⟨wls, insts, nodes, hw, hi, hn, hrest⟩ := hp
  exact ⟨wls, insts, nodes, (hsame.2 _).trans hw, (hsame.2 _).trans hi, (hsame.2 _).trans hn, hrest⟩

theorem mayRetire_workload (hp : PassOf hs h w container hash g) {cur : Instance} {tried : ℕ}
    (hm : MayRetire w g cur tried) : cur.spec.workload = w.metadata.name := by
  obtain ⟨wls, insts, nodes, -, -, -, -, -, -, rfl⟩ := hp
  have hmine : ∀ r, cur ∈ sortNewestFirst (ofRole hash (drainingNames nodes) r
      (insts.filter fun i => i.spec.workload = w.metadata.name)) → cur.spec.workload = w.metadata.name :=
    fun r hc => of_decide_eq_true (List.mem_filter.mp (mem_ofRole.mp (mem_sortNewestFirst.mp hc)).1).2
  rcases hm with ⟨-, hc⟩ | ⟨-, hc, -⟩
  · exact hmine .fresh hc
  · exact hmine .retiring hc

theorem passOf_inPass (hp : InPass h wls insts nodes) (hw : w ∈ wls) (hc : w.spec.template.containers = [container])
    (hh : hs.templateHash w.spec.template = .ok hash) :
    PassOf hs h w container hash (classify hash (drainingNames nodes)
      (insts.filter fun i => i.spec.workload = w.metadata.name)) :=
  ⟨wls, insts, nodes, hp.workloads.last, hp.instances.last, hp.nodes.last, hw, hc, hh, rfl⟩

-- Keeps to the rights, and leaves the other workloads' instances as they are.
abbrev Confined {α : Type} (hs : Hasher) (w : Workload) (p : Code α) (h : Log) : Prop :=
  Obeys (workloadRights hs) (fun h' _ => Leaves (· ≠ w.metadata.name) h h') p h

theorem obeys_retire (hp : InPass h wls insts nodes) (hpass : PassOf hs h w container hash g)
    (reason : String) (p : Progress) (inst : Instance) (hi : inst ∈ insts) (hw : inst.spec.workload = w.metadata.name)
    (hr : MayRetire w g inst (retiredSince w.metadata.name h)) :
    Confined hs w (retire reason p inst) h := by
  unfold retire
  split
  · rename_i hready
    exact follows_post (fun _ _ hl => leaves_mono (fun _ _ => trivial) hl)
      (obeys_deleteInstance hp p inst ⟨hi, fun _ => hready⟩)
  · rename_i hready
    refine obeys_put (fun w' ha => within_put (k := .inst) (hp.instances.seen inst hi) ha rfl
      ⟨not_not.mp hready, w, container, hash, g, reason, hpass, hr, rfl⟩) ?_
    intro c w' r _ _
    have hl : Leaves (· ≠ w.metadata.name) h
        (klited.event c (.put .inst (markedRetired inst reason) inst.metadata.resourceVersion) w' :: h) :=
      leaves_put fun n hn he => hn (he.symm.trans hw)
    cases r with
    | error e =>
      dsimp only
      split <;> exact hl
    | ok _ =>
      refine obeys_quiet rfl ?_
      intro c' w'' t _ _
      exact leaves_trans hl (leaves_event (fun k hk => by cases hk) fun o rev ho => by cases ho)

theorem obeys_createLoop (hpass : PassOf hs h w container hash g)
    (hc : MayCreate w g (createdSince w.metadata.name h)) (p : Progress) (n : ℕ) :
    Obeys (workloadRights hs) (fun h' _ => Leaves (· ≠ w.metadata.name) h h' ∧
        createdSince w.metadata.name h' ≤ createdSince w.metadata.name h + 1) (createLoop w container hash p n) h := by
  induction n generalizing h with
  | zero => exact ⟨leaves_refl h, Nat.le_succ _⟩
  | succ n ih =>
    refine obeys_quiet rfl ?_
    intro c₁ w₁ suffix _ _
    have hl₁ : Leaves (fun _ => True) h (klited.event c₁ Op.hexSuffix w₁ :: h) :=
      leaves_event (fun k hk => by cases hk) fun o rev ho => by cases ho
    have hcreated := (hl₁.kept w.metadata.name trivial).1
    have hpass₁ := passOf_same hpass hl₁.lists
    refine obeys_put (fun w₂ _ => Or.inl ⟨rfl, w, container, hash, g, _, hpass₁, hcreated ▸ hc, rfl⟩) ?_
    intro c₂ w₂ r _ hr
    have hwl : (newInstance w container hash (w.metadata.name ++ "-" ++ suffix)).spec.workload =
      w.metadata.name := rfl
    generalize newInstance w container hash (w.metadata.name ++ "-" ++ suffix) = o at hr hwl ⊢
    have hl₂ : Leaves (· ≠ w.metadata.name) h
        (klited.event c₂ (.put .inst o revCreate) w₂ :: klited.event c₁ Op.hexSuffix w₁ :: h) :=
      leaves_trans (leaves_mono (fun _ _ => trivial) hl₁) (leaves_put fun m hm he => hm (he.symm.trans hwl))
    have hone := createdSince_put (h := klited.event c₁ Op.hexSuffix w₁ :: h) c₂ w₂ o revCreate
      w.metadata.name
    rw [hcreated] at hone
    cases r with
    | ok _ => exact ⟨hl₂, hone⟩
    | error e =>
      dsimp only
      split
      · rename_i he
        have hsame := createdSince_refused (h := klited.event c₁ Op.hexSuffix w₁ :: h) w.metadata.name
          (put_refused hr (by rw [of_decide_eq_true he]; decide))
        rw [hcreated] at hsame
        refine follows_post ?_
          (ih (passOf_same hpass hl₂.lists) (by rw [hsame]; exact hc))
        rintro h' _ ⟨hl, hle⟩
        exact ⟨leaves_trans hl₂ hl, hsame ▸ hle⟩
      · exact ⟨hl₂, hone⟩

theorem obeys_rollStep (hp : InPass h wls insts nodes) (hpass : PassOf hs h w container hash g)
    (hmine : ∀ i ∈ g.retiring, i ∈ insts ∧ i.spec.workload = w.metadata.name)
    (hfresh : (g.fresh.length : Int) ≤ w.spec.replicas) (hnone : g.draining = [])
    (hcreated : createdSince w.metadata.name h = 0) (hretired : retiredSince w.metadata.name h = 0)
    {victim : Instance} (hv : victim ∈ g.retiring) (p : Progress) :
    Confined hs w (rollStep w container hash g victim p) h := by
  obtain ⟨hi, hwl⟩ := hmine victim hv
  have hretire : ∀ reason, (g.fresh.length : Int) + g.retiring.length > w.spec.replicas →
      ((readyCount g.fresh : Int) ≥ min w.spec.replicas g.fresh.length ∨ surgeBlocked g.fresh) →
      Confined hs w (retire reason p victim) h :=
    fun reason ht hd => obeys_retire hp hpass reason p victim hi hwl
      (Or.inr ⟨hfresh, hv, hnone, hretired, ht, hd⟩)
  unfold rollStep
  dsimp only
  split
  · rename_i hsurge
    refine follows_post (fun _ _ hq => hq.1) (obeys_createLoop hpass ?_ p casRetries)
    exact Or.inr ⟨List.ne_nil_of_mem hv, hnone, hsurge.1, hcreated⟩
  · split
    · rename_i hroll
      exact hretire _ hroll.1 (Or.inl hroll.2)
    · split
      · rename_i hblocked
        exact hretire _ hblocked.1 (Or.inr hblocked.2)
      · exact leaves_refl h

theorem obeys_advanceFresh (hp : InPass h wls insts nodes) (hpass : PassOf hs h w container hash g)
    (hfresh : ∀ i ∈ g.fresh, i ∈ insts ∧ i.spec.workload = w.metadata.name)
    (hretiring : ∀ i ∈ g.retiring, i ∈ insts ∧ i.spec.workload = w.metadata.name)
    (hcreated : createdSince w.metadata.name h = 0) (hretired : retiredSince w.metadata.name h = 0) (p : Progress) :
    Confined hs w (advanceFresh w container hash g p) h := by
  unfold advanceFresh
  dsimp only
  split
  · rename_i hsurplus
    split
    · trivial
    · refine obeys_rounds leaves_refl leaves_trans _ _ ?_
      intro inst hi p' h' hl
      have hmem := List.mem_of_mem_take hi
      exact obeys_retire (inPass_same hp hl.lists) (passOf_same hpass hl.lists) _ p' inst
        (hfresh inst hmem).1 (hfresh inst hmem).2 (Or.inl ⟨by omega, hmem⟩)
  · rename_i hsurplus
    split
    · rename_i hmissing
      -- What is created and what is left to create add up to what is missing.
      generalize hm : w.spec.replicas - g.fresh.length - g.retiring.length = missing at hmissing ⊢
      refine follows_post (fun _ _ hq => hq.1)
        (follows_foldlM _ (fun bs h' _ => Leaves (· ≠ w.metadata.name) h h' ∧
          (createdSince w.metadata.name h' : Int) + bs.length ≤ missing) ?_ _ _ h ?_)
      · rintro b bs h' p' ⟨hl, hle⟩
        rw [List.length_cons] at hle
        refine follows_post ?_ (obeys_createLoop (passOf_same hpass hl.lists)
          (Or.inl (by omega)) p' casRetries)
        rintro h'' _ ⟨hl', hle'⟩
        exact ⟨leaves_trans hl hl', by omega⟩
      · refine ⟨leaves_refl h, ?_⟩
        rw [hcreated, List.length_range]
        omega
    · cases hg : g.retiring with
      | nil => exact leaves_refl h
      | cons victim rest =>
        dsimp only
        split
        · exact leaves_refl h
        · rename_i hd
          exact obeys_rollStep hp hpass hretiring (by omega) (not_not.mp hd) hcreated hretired
            (by rw [hg]; exact List.mem_cons_self) p

theorem obeys_advance (hp : InPass h wls insts nodes) (hw : w ∈ wls)
    (hc : w.spec.template.containers = [container]) (hh : hs.templateHash w.spec.template = .ok hash)
    (hcreated : createdSince w.metadata.name h = 0) (hretired : retiredSince w.metadata.name h = 0) (p : Progress) :
    Confined hs w (advance w container hash (insts.filter fun i => i.spec.workload = w.metadata.name)
        (drainingNames nodes) p) h := by
  have hmine : ∀ i ∈ insts.filter fun i => i.spec.workload = w.metadata.name,
      i ∈ insts ∧ i.spec.workload = w.metadata.name :=
    fun i hi => ⟨(List.mem_filter.mp hi).1, of_decide_eq_true (List.mem_filter.mp hi).2⟩
  refine follows_bind (obeys_rounds (h := h) (L := Leaves fun _ => True) leaves_refl leaves_trans
    _ p ?_) ?_
  · intro inst hi p' h' hl
    have hd := mem_ofRole.mp hi
    exact obeys_deleteInstance (inPass_same hp hl.lists) p' inst
      ⟨(hmine inst hd.1).1, fun _ => roleOf_doomed hd.2⟩
  · intro h₁ p₁ _ hl₁
    refine follows_bind (obeys_rounds (h := h₁) (L := Leaves fun _ => True) leaves_refl
      leaves_trans _ p₁ ?_) ?_
    · intro inst hi p' h' hl
      have hd := mem_ofRole.mp hi
      exact obeys_expireDrain (inPass_same hp (leaves_trans hl₁ hl).lists) p' inst (hmine inst hd.1).1
        (roleOf_draining.mp hd.2)
    · intro h₂ p₂ _ hl₂
      have hl := leaves_trans hl₁ hl₂
      have hkept := hl.kept w.metadata.name trivial
      refine follows_post
        (fun h' _ hq => leaves_trans (leaves_mono (fun _ _ => trivial) hl) hq)
        (obeys_advanceFresh (inPass_same hp hl.lists) (passOf_same (passOf_inPass hp hw hc hh) hl.lists)
          ?_ ?_ (hkept.1.trans hcreated) (hkept.2.trans hretired) p₂)
      · exact fun i hi => hmine i (mem_ofRole.mp (mem_sortNewestFirst.mp hi)).1
      · exact fun i hi => hmine i (mem_ofRole.mp (mem_sortNewestFirst.mp hi)).1

end Workload

theorem obeys_updateStatus (hp : InPass h wls insts nodes) (w : Workload) (hw : w ∈ wls) (hash : String)
    (mine : List Instance) (p : Progress) : Obeys (workloadRights hs) (fun h' _ => Leaves (fun _ => True) h h')
      (updateStatus w hash mine p) h := by
  unfold updateStatus
  dsimp only
  split
  · exact leaves_refl h
  · refine obeys_put (fun w' ha => within_put (k := .workload) (hp.workloads.seen w hw) ha rfl
      ⟨⟨wls, hp.workloads.last, hw⟩, _, rfl⟩) ?_
    intro c w' r _ _
    have hl : ∀ o, Leaves (fun _ => True) h
        (klited.event c (.put .workload o w.metadata.resourceVersion) w' :: h) :=
      fun o => leaves_event (fun k hk => by cases hk) fun o rev ho => by cases ho
    cases r with
    | ok _ => exact hl _
    | error e =>
      dsimp only
      split <;> exact hl _

theorem obeys_reconcileWorkload (hp : InPass h wls insts nodes) (p : Progress) (w : Workload)
    (hw : w ∈ wls) (hcreated : createdSince w.metadata.name h = 0) (hretired : retiredSince w.metadata.name h = 0) :
    Confined hs w (reconcileWorkload hs insts (drainingNames nodes) p w) h := by
  unfold reconcileWorkload
  split
  · rename_i container hc
    split
    · exact leaves_refl h
    · rename_i hash hh
      refine follows_bind (obeys_advance hp hw hc hh hcreated hretired p) ?_
      intro h₁ p₁ _ hl₁
      exact follows_post
        (fun h' _ hq => leaves_trans hl₁ (leaves_mono (fun _ _ => trivial) hq))
        (obeys_updateStatus (inPass_same hp hl₁.lists) w hw hash _ p₁)
  · exact leaves_refl h

theorem obeys_sweepOrphans (hp : InPass h wls insts nodes) (p : Progress) (wname : String) :
    Obeys (workloadRights hs) (fun h' _ => SameLists h h')
      (sweepOrphans (wls.map (·.metadata.name)) insts p wname) h := by
  unfold sweepOrphans
  split
  · exact sameLists_refl h
  · rename_i hw
    refine obeys_loop _ _ ?_
    intro inst hi p' h' hsame
    obtain ⟨hmem, hname⟩ := List.mem_filter.mp hi
    refine follows_post (fun _ _ hq => hq.lists)
      (obeys_deleteInstance (inPass_same hp hsame) p' inst ⟨hmem, fun hin => ?_⟩)
    rw [of_decide_eq_true hname] at hin
    exact absurd hin hw

theorem obeys_reconcileListed (hp : InPass h wls insts nodes) (order : List String → List String)
    (hnames : (wls.map (·.metadata.name)).Nodup)
    (hfresh : ∀ n, createdSince n h = 0 ∧ retiredSince n h = 0) (d : Deadlines) :
    Obeys (workloadRights hs) (fun h' _ => SameLists h h') (reconcileListed hs order wls insts nodes d) h := by
  -- A workload's turn comes once, so nothing has been done for it before.
  have hloop := follows_foldlM (M := klited) (S := Within (workloadRights hs))
    (reconcileWorkload hs insts (drainingNames nodes))
    (fun ws h' _ => SameLists h h' ∧ (∀ w ∈ ws, w ∈ wls) ∧ (ws.map (·.metadata.name)).Nodup ∧
      ∀ w ∈ ws, createdSince w.metadata.name h' = 0 ∧ retiredSince w.metadata.name h' = 0) ?_ wls
    { deadlines := pruneDeadlines insts d } h
    ⟨sameLists_refl h, fun _ hw => hw, hnames, fun w _ => hfresh w.metadata.name⟩
  · refine follows_bind hloop ?_
    rintro h₁ p₁ - ⟨hs₁, -⟩
    refine follows_post (fun h' _ hq => sameLists_trans hs₁ hq)
      (obeys_loop (h := h₁) _ p₁ ?_)
    intro wname _ p' h' hsame
    exact obeys_sweepOrphans (inPass_same hp (sameLists_trans hs₁ hsame)) p' wname
  · rintro w ws h' p' ⟨hsame, hin, hnd, hzero⟩
    rw [List.map_cons, List.nodup_cons] at hnd
    obtain ⟨hc, hr⟩ := hzero w List.mem_cons_self
    refine follows_post ?_
      (obeys_reconcileWorkload (inPass_same hp hsame) p' w (hin w List.mem_cons_self) hc hr)
    intro h'' _ hl
    refine ⟨sameLists_trans hsame hl.lists, fun w' hw' => hin w' (List.mem_cons_of_mem _ hw'), hnd.2, ?_⟩
    intro w' hw'
    have hne : w'.metadata.name ≠ w.metadata.name :=
      fun he => hnd.1 (he ▸ List.mem_map_of_mem (f := fun w : Workload => w.metadata.name) hw')
    obtain ⟨hc', hr'⟩ := hzero w' (List.mem_cons_of_mem _ hw')
    exact ⟨(hl.kept _ hne).1.trans hc', (hl.kept _ hne).2.trans hr'⟩

end Pass

theorem obeys_workloadReconcile (hs : Hasher) (order : List String → List String) (d : Deadlines) (h : Log) :
    Abides (workloadRights hs) (workloadReconcile hs order d) h := by
  refine obeys_list (fun _ _ _ _ _ => trivial) ?_
  intro c₁ w₁ _ hr₁
  refine obeys_list (fun _ _ _ _ _ => trivial) ?_
  intro c₂ w₂ _ hr₂
  refine obeys_list (fun _ _ _ _ _ => trivial) ?_
  intro c₃ w₃ _ hr₃
  -- The workload listing is two calls old, the instance listing one.
  have hwls := listed_other (listed_other (listed_event hr₁ (h := h)) .inst (by decide) c₂ w₂)
    .node (by decide) c₃ w₃
  have hinsts := listed_other (listed_event hr₂ (h := klited.event c₁ (.list .workload) w₁ :: h))
    .node (by decide) c₃ w₃
  refine follows_post (fun _ _ _ => trivial)
    (obeys_reconcileListed ⟨hwls, hinsts, listed_event hr₃⟩ order (listing_names w₁.store .workload) ?_ d)
  intro n
  have hz : ∀ f : Event Op Res World → ℕ, f (klited.event c₃ (.list .node) w₃) = 0 →
      tally f (klited.event c₃ (.list .node) w₃ :: klited.event c₂ (.list .inst) w₂ ::
        klited.event c₁ (.list .workload) w₁ :: h) = 0 := by
    intro f hf
    rw [tally_other (listedBy_other (by decide) c₃ w₃), tally_listed (listedBy_self hr₂), hf]
  exact ⟨hz _ rfl, hz _ rfl⟩

theorem obeys_workloadLife (hs : Hasher) (order : ℕ → List String → List String) (n : ℕ) (d : Deadlines) (h : Log) :
    Abides (workloadRights hs) (workloadLife hs order n d) h := by
  induction n generalizing d h with
  | zero => trivial
  | succ n ih =>
    exact follows_bind (obeys_workloadReconcile hs (order n) d h) fun h' p _ _ => ih p.deadlines h'

end Klite
