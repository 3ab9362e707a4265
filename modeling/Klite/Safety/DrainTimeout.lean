import Klite.Controller.Roles
import Klite.Controller.Workload
import Klite.Lib.Process

/-!
# How long a drain lasts

One leader life of the workload controller, with any answers to its calls and a clock that
does not go back.
-/

namespace Klite
open Lib

def reply (c : (op : Op) → Res op) (t : Int) : (op : Op) → Res op
  | .now => t
  | op => c op

/- Whatever the store answers; only the clock is the world's. -/
abbrev scripted : Machine Op Res where
  World := Int
  Choice := (op : Op) → Res op
  Move := ℕ
  exec := fun c op t => (reply c t op, t)
  move := fun d t => t + d
  le := fun t t' => t ≤ t'
  le_refl := fun t => le_rfl
  le_trans := fun h h' => h.trans h'
  exec_le := fun _ _ _ => le_rfl
  move_le := fun _ _ => by omega

abbrev Script := List (Event Op Res Int)

/-! ## What a history shows -/

-- The reads of the pass under way: those of workloads and instances, once the nodes have been read too.
def passLists : Script → Option (List Workload × List Instance)
  | ⟨.list .node, .ok _, _, _⟩ :: ⟨.list .inst, .ok (insts, _), _, _⟩ :: ⟨.list .workload, .ok (wls, _), _, _⟩ :: _ =>
    some (wls, insts)
  | _ :: h => passLists h
  | [] => none

/- A listing at time `t` ends the stay of a UID that it does not show, and may be the first to show it
DRAINING. -/
def seenAt (u : Uid) (insts : List Instance) (t : Int) (first : Option Int) : Option Int :=
  if insts.any fun i => i.metadata.uid = u then
    first.or (if insts.any fun i => i.metadata.uid = u && i.phase = .draining then some t else none)
  else none

def markedAt (u : Uid) (o : Instance) (t : Int) (first : Option Int) : Option Int :=
  first.or (if o.metadata.uid = u ∧ o.phase = .draining then some t else none)

/- The first moment of the UID's present stay in the listings at which this life marked it DRAINING
or listed it so. The listings are those of the passes whose reads all succeed. -/
def firstDraining (u : Uid) : Script → Option Int
  | ⟨.list .node, .ok _, _, _⟩ :: ⟨.list .inst, .ok (insts, _), _, t⟩ :: h => seenAt u insts t (firstDraining u h)
  | ⟨.put .inst o _, .ok _, _, t⟩ :: h => markedAt u o t (firstDraining u h)
  | _ :: h => firstDraining u h
  | [] => none

def WasListed (i : Instance) (h : Script) : Prop :=
  ∃ insts r t t', (⟨.list .inst, .ok (insts, r), t, t'⟩ : Event Op Res Int) ∈ h ∧ i ∈ insts

-- Long enough ago by one of the specs the UID was listed with.
def Elapsed (u : Uid) (h : Script) (t : Int) : Prop :=
  ∃ t₀ i, firstDraining u h = some t₀ ∧ WasListed i h ∧ i.metadata.uid = u ∧ t₀ + drainTimeout i ≤ t

/-- A delete of an instance is of one the pass has listed; if it is DRAINING and its workload is
there, its drain has expired. -/
def drainSpec (h : Script) (t : Int) : Op → Prop
  | .deleteIfRevision .inst name rev => ∃ wls insts inst, passLists h = some (wls, insts) ∧ inst ∈ insts ∧
      inst.metadata.name = name ∧ inst.metadata.resourceVersion = rev ∧
      (inst.phase = .draining → inst.spec.workload ∈ wls.map (·.metadata.name) → Elapsed inst.metadata.uid h t)
  | _ => True

variable {d : Deadlines}

section History
variable {h h' h'' : Script} {u : Uid} {t : Int}

theorem first_mem (hf : firstDraining u h = some t) : ∃ e ∈ h, e.post = t := by
  fun_induction firstDraining u h with
  | case1 _ _ _ insts _ _ t' h ih =>
    unfold seenAt at hf
    split at hf
    · rcases Option.or_eq_some_iff.mp hf with hf | ⟨-, hf⟩
      · obtain ⟨e, he, ht⟩ := ih hf
        exact ⟨e, List.mem_cons_of_mem _ (List.mem_cons_of_mem _ he), ht⟩
      · split at hf
        · exact ⟨_, List.mem_cons_of_mem _ List.mem_cons_self, Option.some.inj hf⟩
        · cases hf
    · cases hf
  | case2 o _ _ _ t' h ih =>
    unfold markedAt at hf
    rcases Option.or_eq_some_iff.mp hf with hf | ⟨-, hf⟩
    · obtain ⟨e, he, ht⟩ := ih hf
      exact ⟨e, List.mem_cons_of_mem _ he, ht⟩
    · split at hf
      · exact ⟨_, List.mem_cons_self, Option.some.inj hf⟩
      · cases hf
  | case3 e h _ _ ih =>
    obtain ⟨e', he, ht⟩ := ih hf
    exact ⟨e', List.mem_cons_of_mem _ he, ht⟩
  | case4 => cases hf

structure Onward (h h' : Script) : Prop where
  lists : passLists h' = passLists h
  grows : h <:+ h'
  first : ∀ u t, firstDraining u h = some t → firstDraining u h' = some t

theorem onward_refl (h : Script) : Onward h h := ⟨rfl, List.suffix_refl h, fun _ _ hf => hf⟩

theorem onward_trans (a : Onward h h') (b : Onward h' h'') : Onward h h'' :=
  ⟨b.lists.trans a.lists, a.grows.trans b.grows, fun u t hf => b.first u t (a.first u t hf)⟩

theorem onward_event {op : Op} (r : Res op) (t t' : Int) (hop : ∀ k, op ≠ .list k) : Onward h (⟨op, r, t, t'⟩ :: h) := by
  refine ⟨?_, List.suffix_cons _ _, ?_⟩
  · cases op with
    | list k => exact absurd rfl (hop k)
    | _ => rfl
  · intro u t₀ hf
    cases op with
    | list k => exact absurd rfl (hop k)
    | put k o rev =>
      cases k with
      | inst =>
        cases r with
        | ok _ => exact Option.or_eq_some_iff.mpr (Or.inl hf)
        | error e => exact hf
      | _ => exact hf
    | _ => exact hf

theorem listed_onward {i : Instance} (hl : WasListed i h) (hg : h <:+ h') : WasListed i h' := by
  obtain ⟨insts, r, a, b, hm, hi⟩ := hl
  exact ⟨insts, r, a, b, hg.subset hm, hi⟩

theorem elapsed_onward (he : Elapsed u h t) (ho : Onward h h') {t' : Int} (ht : t ≤ t') : Elapsed u h' t' := by
  obtain ⟨t₀, i, hf, hl, hu, hle⟩ := he
  exact ⟨t₀, i, ho.first u t₀ hf, listed_onward hl ho.grows, hu, hle.trans ht⟩

-- Every recorded deadline leaves the time it should.
def Clocked (d : Deadlines) (h : Script) : Prop := ∀ (u : Uid) (x : Int), d[u]? = some x → Elapsed u h x

theorem clocked_onward (hc : Clocked d h) (ho : Onward h h') : Clocked d h' :=
  fun u x hx => elapsed_onward (hc u x hx) ho le_rfl

structure OnPass (wls : List Workload) (insts : List Instance) (h : Script) : Prop where
  lists : passLists h = some (wls, insts)
  listed : ∀ i ∈ insts, WasListed i h
  draining : ∀ i ∈ insts, i.phase = .draining → ∃ t, firstDraining i.metadata.uid h = some t

theorem onPass_onward {wls : List Workload} {insts : List Instance} (hp : OnPass wls insts h) (ho : Onward h h') :
    OnPass wls insts h' := by
  refine ⟨ho.lists.trans hp.lists, fun i hi => listed_onward (hp.listed i hi) ho.grows, ?_⟩
  intro i hi hd
  obtain ⟨t, ht⟩ := hp.draining i hi hd
  exact ⟨t, ho.first _ t ht⟩

end History

/-! ## The program -/

section Program
variable {α : Type} {h : Script} {Q : Script → α → Prop} {wls : List Workload} {insts : List Instance} {p : Progress}
  {inst : Instance}

abbrev Drains (Q : Script → α → Prop) (p : Code α) (h : Script) : Prop := Follows scripted drainSpec Q p h

def NoLater (h : Script) (t : Int) : Prop := ∀ e ∈ h, e.post ≤ t

theorem drains_call {op : Op} {k : Res op → Code α} (hs : ∀ t, NoLater h t → drainSpec h t op)
    (hk : ∀ t r, NoLater h t → Drains Q (k r) (⟨op, r, t, t⟩ :: h)) : Drains Q (Prog.perform op >>= k) h :=
  fun t ht => ⟨hs t ht, fun _ => hk t _ ht⟩

theorem drains_now {k : Int → Code α} (hk : ∀ t, NoLater h t → Drains Q (k t) (⟨.now, t, t, t⟩ :: h)) :
    Drains Q (now >>= k) h :=
  fun t ht => ⟨trivial, fun _ => hk t ht⟩

theorem drains_mono {Q' : Script → α → Prop} {c : Code α} (hc : Drains Q c h) (hq : ∀ h' a, Q h' a → Q' h' a) : Drains Q' c h :=
  follows_post (M := scripted) hq hc

-- The calls stay within the pass, and the deadlines stay right.
def Keeps (h h' : Script) (p : Progress) : Prop := Onward h h' ∧ Clocked p.deadlines h'

theorem keeps_trans {h' h'' : Script} (ho : Onward h h') (hk : Keeps h' h'' p) : Keeps h h'' p :=
  ⟨onward_trans ho hk.1, hk.2⟩

theorem drains_loop {β : Type} {f : Progress → β → Code Progress} {bs : List β} (hc : Clocked p.deadlines h)
    (hf : ∀ b ∈ bs, ∀ p' h', Onward h h' → Clocked p'.deadlines h' → Drains (Keeps h') (f p' b) h') :
    Drains (Keeps h) (bs.foldlM f p) h := by
  refine drains_mono (follows_foldlM (M := scripted) f (fun rest h' p' => Keeps h h' p' ∧ ∀ b ∈ rest, b ∈ bs) ?_ bs p h
    ⟨⟨onward_refl h, hc⟩, fun _ hb => hb⟩) fun _ _ hk => hk.1
  rintro b rest h' p' ⟨⟨ho, hc'⟩, hsub⟩
  refine drains_mono (hf b (hsub b List.mem_cons_self) p' h' ho hc') ?_
  intro h'' p'' hk
  exact ⟨keeps_trans ho hk, fun x hx => hsub x (List.mem_cons_of_mem b hx)⟩

theorem drains_delete (hp : OnPass wls insts h) (hc : Clocked p.deadlines h) (hi : inst ∈ insts)
    (he : inst.phase = .draining → inst.spec.workload ∈ wls.map (·.metadata.name) →
      ∀ t, NoLater h t → Elapsed inst.metadata.uid h t) : Drains (Keeps h) (deleteInstance p inst) h := by
  refine drains_call ?_ ?_
  · exact fun t ht => ⟨wls, insts, inst, hp.lists, hi, rfl, rfl, fun hd hw => he hd hw t ht⟩
  · intro t r _
    have ho : Onward h (⟨.deleteIfRevision .inst inst.metadata.name inst.metadata.resourceVersion, r, t, t⟩ :: h) :=
      onward_event r t t nofun
    have hk : ∀ q : Progress, q.deadlines = p.deadlines → Keeps h _ q := fun q hq => ⟨ho, hq ▸ clocked_onward hc ho⟩
    cases r with
    | ok _ => exact hk p rfl
    | error e =>
      dsimp only
      split
      · exact hk p rfl
      · exact hk _ rfl

theorem clocked_insert {t t₀ : Int} (hc : Clocked d h) (hi : WasListed inst h)
    (hf : firstDraining inst.metadata.uid h = some t₀) (ht : t₀ ≤ t) :
    Clocked (d.insert inst.metadata.uid (t + drainTimeout inst)) h := by
  intro u x hx
  rw [Table.get_insert] at hx
  split at hx
  · rename_i hu
    subst hu
    cases hx
    exact ⟨t₀, inst, hf, hi, rfl, by omega⟩
  · exact hc u x hx

section Retires
variable (hp : OnPass wls insts h) (hc : Clocked p.deadlines h) (hi : inst ∈ insts)
include hp hc hi

theorem drains_retireReady (reason : String) : Drains (Keeps h) (retireReady p inst reason) h := by
  refine drains_call (fun _ _ => trivial) ?_
  intro t r _
  have ho : Onward h (⟨.put .inst (markedRetired inst reason) inst.metadata.resourceVersion, r, t, t⟩ :: h) :=
    onward_event r t t nofun
  cases r with
  | error e =>
    dsimp only
    split
    · exact ⟨ho, clocked_onward hc ho⟩
    · exact ⟨ho, clocked_onward hc ho⟩
  | ok r =>
    refine drains_now ?_
    intro t' ht'
    have ho' : Onward h (⟨.now, t', t', t'⟩ :: ⟨.put .inst (markedRetired inst reason) inst.metadata.resourceVersion, .ok r, t, t⟩ :: h) :=
      onward_trans ho (onward_event _ _ _ nofun)
    refine ⟨ho', ?_⟩
    -- The mark is in the history, so the first moment is there and is not later than now.
    have hmark : ∃ t₀, firstDraining inst.metadata.uid
        (⟨.put .inst (markedRetired inst reason) inst.metadata.resourceVersion, .ok r, t, t⟩ :: h) = some t₀ := by
      show ∃ t₀, markedAt inst.metadata.uid (markedRetired inst reason) t (firstDraining inst.metadata.uid h) = some t₀
      unfold markedAt
      rw [if_pos ⟨rfl, rfl⟩]
      cases firstDraining inst.metadata.uid h with
      | none => exact ⟨t, rfl⟩
      | some t₀ => exact ⟨t₀, rfl⟩
    obtain ⟨t₀, hf⟩ := hmark
    obtain ⟨e, he, rfl⟩ := first_mem hf
    exact clocked_insert (clocked_onward hc ho') (listed_onward (hp.listed inst hi) ho'.grows) hf (ht' e he)

theorem drains_retire (hd : inst.phase ≠ .draining) (reason : String) : Drains (Keeps h) (retire reason p inst) h := by
  unfold retire
  split
  · exact drains_delete hp hc hi fun h => absurd h hd
  · exact drains_retireReady hp hc hi reason

theorem drains_expireDrain (hd : inst.phase = .draining) : Drains (Keeps h) (expireDrain p inst) h := by
  unfold expireDrain
  cases hx : p.deadlines[inst.metadata.uid]? with
  | none =>
    refine drains_now ?_
    intro t ht
    have ho : Onward h (⟨.now, t, t, t⟩ :: h) := onward_event _ _ _ nofun
    obtain ⟨t₀, hf⟩ := hp.draining inst hi hd
    obtain ⟨e, he, rfl⟩ := first_mem hf
    exact ⟨ho, clocked_insert (clocked_onward hc ho) (listed_onward (hp.listed inst hi) ho.grows) (ho.first _ _ hf) (ht e he)⟩
  | some deadline =>
    refine drains_now ?_
    intro t ht
    have ho : Onward h (⟨.now, t, t, t⟩ :: h) := onward_event _ _ _ nofun
    split
    · exact ⟨ho, clocked_onward hc ho⟩
    · rename_i hlt
      refine drains_mono (drains_delete (onPass_onward hp ho) (clocked_onward hc ho) hi ?_) fun _ _ hk => keeps_trans ho hk
      intro _ _ t' ht'
      have hle : t ≤ t' := ht' _ List.mem_cons_self
      exact elapsed_onward (hc _ _ hx) ho (by omega)

end Retires

theorem drains_createLoop (hc : Clocked p.deadlines h) (w : Workload) (container : Container) (hash : String) (n : ℕ) :
    Drains (Keeps h) (createLoop w container hash p n) h := by
  induction n generalizing h with
  | zero => exact ⟨onward_refl h, hc⟩
  | succ n ih =>
    refine drains_call (fun _ _ => trivial) ?_
    intro t suffix _
    have ho : Onward h (⟨.hexSuffix, suffix, t, t⟩ :: h) := onward_event _ _ _ nofun
    refine drains_call (fun _ _ => trivial) ?_
    intro t' r _
    have ho' : Onward h (⟨.put .inst (newInstance w container hash (w.metadata.name ++ "-" ++ suffix)) revCreate, r, t', t'⟩ ::
      ⟨.hexSuffix, suffix, t, t⟩ :: h) := onward_trans ho (onward_event _ _ _ nofun)
    have hc' := clocked_onward hc ho'
    cases r with
    | ok _ => exact ⟨ho', hc'⟩
    | error e =>
      dsimp only
      split
      · exact drains_mono (ih hc') fun _ _ hk => keeps_trans ho' hk
      · exact ⟨ho', hc'⟩

section Workload
variable {w : Workload} {container : Container} {hash : String} {nodes : List String}
variable {l : List Instance}

theorem role_not_draining {r : Role} (hr : r ≠ .draining) (hi : inst ∈ ofRole hash nodes r l) :
    inst ∈ l ∧ inst.phase ≠ .draining := by
  obtain ⟨hm, rfl⟩ := mem_ofRole.mp hi
  exact ⟨hm, fun hd => hr (roleOf_draining.mpr hd)⟩

theorem drains_rollStep {g : Groups} {victim : Instance} (hp : OnPass wls insts h) (hc : Clocked p.deadlines h)
    (hi : victim ∈ insts) (hd : victim.phase ≠ .draining) : Drains (Keeps h) (rollStep w container hash g victim p) h := by
  unfold rollStep
  dsimp only
  split
  · exact drains_createLoop hc w container hash casRetries
  · split
    · exact drains_retire hp hc hi hd _
    · split
      · exact drains_retire hp hc hi hd _
      · exact ⟨onward_refl h, hc⟩

theorem drains_advanceFresh (hl : ∀ i ∈ l, i ∈ insts) (hp : OnPass wls insts h) (hc : Clocked p.deadlines h) :
    Drains (Keeps h) (advanceFresh w container hash (classify hash nodes l) p) h := by
  unfold advanceFresh
  dsimp only
  split
  · split
    · trivial
    · refine drains_loop hc ?_
      intro i hi p' h' ho hc'
      obtain ⟨hm, hd⟩ := role_not_draining (by decide) (mem_sortNewestFirst.mp (List.mem_of_mem_take hi))
      exact drains_retire (onPass_onward hp ho) hc' (hl i hm) hd _
  · split
    · refine drains_loop hc ?_
      intro _ _ p' h' _ hc'
      exact drains_createLoop hc' w container hash casRetries
    · cases hg : (classify hash nodes l).retiring with
      | nil => exact ⟨onward_refl h, hc⟩
      | cons victim rest =>
        dsimp only
        split
        · exact ⟨onward_refl h, hc⟩
        · have hv : victim ∈ (classify hash nodes l).retiring := by
            rw [hg]
            exact List.mem_cons_self
          obtain ⟨hm, hd⟩ := role_not_draining (by decide) (mem_sortNewestFirst.mp hv)
          exact drains_rollStep hp hc (hl _ hm) hd

theorem drains_advance (hl : ∀ i ∈ l, i ∈ insts) (hp : OnPass wls insts h) (hc : Clocked p.deadlines h) :
    Drains (Keeps h) (advance w container hash l nodes p) h := by
  unfold advance
  refine follows_bind (M := scripted) (drains_loop hc ?_) ?_
  · intro i hi p' h' ho hc'
    obtain ⟨hm, hd⟩ := role_not_draining (by decide) hi
    exact drains_delete (onPass_onward hp ho) hc' (hl i hm) fun h => absurd h hd
  · rintro h₁ p₁ - ⟨ho₁, hc₁⟩
    refine follows_bind (M := scripted) (drains_loop hc₁ ?_) ?_
    · intro i hi p' h' ho hc'
      obtain ⟨hm, hr⟩ := mem_ofRole.mp hi
      exact drains_expireDrain (onPass_onward hp (onward_trans ho₁ ho)) hc' (hl i hm) (roleOf_draining.mp hr)
    · rintro h₂ p₂ - ⟨ho₂, hc₂⟩
      have ho := onward_trans ho₁ ho₂
      exact drains_mono (drains_advanceFresh hl (onPass_onward hp ho) hc₂) fun _ _ hk => keeps_trans ho hk

theorem drains_updateStatus (hc : Clocked p.deadlines h) : Drains (Keeps h) (updateStatus w hash l p) h := by
  unfold updateStatus
  dsimp only
  split
  · exact ⟨onward_refl h, hc⟩
  · refine drains_call (fun _ _ => trivial) ?_
    intro t r _
    have hk : ∀ (q : Progress) (o : Workload), q.deadlines = p.deadlines →
        Keeps h (⟨.put .workload o w.metadata.resourceVersion, r, t, t⟩ :: h) q := by
      intro q o hq
      have ho : Onward h (⟨.put .workload o w.metadata.resourceVersion, r, t, t⟩ :: h) := onward_event _ _ _ nofun
      exact ⟨ho, hq ▸ clocked_onward hc ho⟩
    cases r with
    | ok _ => exact hk _ _ rfl
    | error e =>
      dsimp only
      split
      · exact hk _ _ rfl
      · exact hk _ _ rfl

theorem drains_reconcileWorkload (hs : Hasher) (hp : OnPass wls insts h) (hc : Clocked p.deadlines h) :
    Drains (Keeps h) (reconcileWorkload hs insts nodes p w) h := by
  unfold reconcileWorkload
  split
  · split
    · exact ⟨onward_refl h, hc⟩
    · refine follows_bind (M := scripted) (drains_advance (fun i hi => (List.mem_filter.mp hi).1) hp hc) ?_
      rintro h₁ p₁ - ⟨ho₁, hc₁⟩
      exact drains_mono (drains_updateStatus hc₁) fun _ _ hk => keeps_trans ho₁ hk
  · exact ⟨onward_refl h, hc⟩

end Workload

theorem drains_reconcileListed (hs : Hasher) (order : List String → List String) (nodes : List Node)
    (hp : OnPass wls insts h) (hc : Clocked (pruneDeadlines insts d) h) :
    Drains (Keeps h) (reconcileListed hs order wls insts nodes d) h := by
  unfold reconcileListed
  refine follows_bind (M := scripted) (drains_loop hc ?_) ?_
  · intro w _ p' h' ho hc'
    exact drains_reconcileWorkload hs (onPass_onward hp ho) hc'
  · rintro h₁ p₁ - ⟨ho₁, hc₁⟩
    refine drains_mono (drains_loop hc₁ ?_) fun _ _ hk => keeps_trans ho₁ hk
    intro wname _ p₂ h₂ ho₂ hc₂
    unfold sweepOrphans
    split
    · exact ⟨onward_refl h₂, hc₂⟩
    · rename_i hw
      refine drains_loop hc₂ ?_
      intro i hi p₃ h₃ ho₃ hc₃
      obtain ⟨hm, hname⟩ := List.mem_filter.mp hi
      refine drains_delete (onPass_onward hp (onward_trans ho₁ (onward_trans ho₂ ho₃))) hc₃ hm ?_
      intro _ hlive
      rw [of_decide_eq_true hname] at hlive
      exact absurd hlive hw

theorem clocked_prune {r₁ r₂ : Int} {x : List Node × Int} {t₁ t₂ t₃ : Int} (hc : Clocked d h) :
    Clocked (pruneDeadlines insts d) (⟨.list .node, .ok x, t₃, t₃⟩ :: ⟨.list .inst, .ok (insts, r₂), t₂, t₂⟩ ::
      ⟨.list .workload, .ok (wls, r₁), t₁, t₁⟩ :: h) := by
  intro u x hx
  unfold pruneDeadlines at hx
  rw [Table.get_filter] at hx
  obtain ⟨hx, hany⟩ := Option.filter_eq_some_iff.mp hx
  obtain ⟨t₀, i, hf, hl, hu, hle⟩ := hc u x hx
  refine ⟨t₀, i, ?_, listed_onward hl ?_, hu, hle⟩
  · show seenAt u insts t₂ (firstDraining u h) = some t₀
    unfold seenAt
    rw [if_pos hany, hf, Option.some_or]
  · exact (List.suffix_cons _ _).trans ((List.suffix_cons _ _).trans (List.suffix_cons _ _))

theorem onPass_lists {r₁ r₂ : Int} {x : List Node × Int} {t₁ t₂ t₃ : Int} :
    OnPass wls insts (⟨.list .node, .ok x, t₃, t₃⟩ :: ⟨.list .inst, .ok (insts, r₂), t₂, t₂⟩ ::
      ⟨.list .workload, .ok (wls, r₁), t₁, t₁⟩ :: h) := by
  refine ⟨rfl, fun i hi => ⟨insts, r₂, t₂, t₂, List.mem_cons_of_mem _ List.mem_cons_self, hi⟩, ?_⟩
  intro i hi hd
  show ∃ t, seenAt i.metadata.uid insts t₂ (firstDraining i.metadata.uid h) = some t
  unfold seenAt
  rw [if_pos (List.any_eq_true.mpr ⟨i, hi, decide_eq_true rfl⟩),
    if_pos (List.any_eq_true.mpr ⟨i, hi, by simp [hd]⟩)]
  cases firstDraining i.metadata.uid h with
  | none => exact ⟨t₂, rfl⟩
  | some t => exact ⟨t, rfl⟩

theorem clocked_list {k : Kind} {r : Res (.list k)} {t : Int} (hc : Clocked d h) (hk : k = .node → ∃ e, r = .error e) :
    Clocked d (⟨.list k, r, t, t⟩ :: h) := by
  intro u x hx
  obtain ⟨t₀, i, hf, hl, hu, hle⟩ := hc u x hx
  refine ⟨t₀, i, ?_, listed_onward hl (List.suffix_cons _ _), hu, hle⟩
  cases k with
  | node =>
    obtain ⟨e, rfl⟩ := hk rfl
    exact hf
  | _ => exact hf

theorem drains_workloadReconcile (hs : Hasher) (order : List String → List String) (hc : Clocked d h) :
    Drains (fun h' p => Clocked p.deadlines h') (workloadReconcile hs order d) h := by
  unfold workloadReconcile
  refine drains_call (fun _ _ => trivial) ?_
  intro t₁ r₁ _
  have hc₁ : Clocked d (⟨.list .workload, r₁, t₁, t₁⟩ :: h) := clocked_list hc nofun
  cases r₁ with
  | error e => exact hc₁
  | ok x₁ =>
    refine drains_call (fun _ _ => trivial) ?_
    intro t₂ r₂ _
    have hc₂ : Clocked d (⟨.list .inst, r₂, t₂, t₂⟩ :: ⟨.list .workload, .ok x₁, t₁, t₁⟩ :: h) := clocked_list hc₁ nofun
    cases r₂ with
    | error e => exact hc₂
    | ok x₂ =>
      refine drains_call (fun _ _ => trivial) ?_
      intro t₃ r₃ _
      cases r₃ with
      | error e => exact clocked_list hc₂ fun _ => ⟨e, rfl⟩
      | ok x₃ =>
        exact drains_mono (drains_reconcileListed hs order x₃.1 onPass_lists (clocked_prune hc)) fun _ _ hk => hk.2

theorem drains_workloadLife (hs : Hasher) (order : ℕ → List String → List String) (n : ℕ) (hc : Clocked d h) :
    Drains (fun _ _ => True) (workloadLife hs order n d) h := by
  induction n generalizing d h with
  | zero => trivial
  | succ n ih =>
    exact follows_bind (M := scripted) (drains_workloadReconcile hs (order n) hc) fun h' p _ hc' => ih hc'

end Program

/-- In every run of one leader life, whatever its reads and writes are answered: a delete of a listed
instance that is DRAINING and whose workload is there comes at least a drain timeout after the first
moment of its present stay in the listings at which this life marked it DRAINING or listed it so. -/
theorem drain_timeout_honoured (hs : Hasher) (order : ℕ → List String → List String) (n : ℕ) (t : Int)
    (ls : List (Tick scripted)) (e : Event Op Res Int) (h : Script)
    (he : e :: h <:+ (runs Proc.next ((workloadLife hs order n ∅).start (M := scripted) t) ls).hist) (name : String) (rev : Int)
    (hop : e.op = .deleteIfRevision .inst name rev) :
    ∃ wls insts inst, passLists h = some (wls, insts) ∧ inst ∈ insts ∧ inst.metadata.name = name ∧
      inst.metadata.resourceVersion = rev ∧ (inst.phase = .draining → inst.spec.workload ∈ wls.map (·.metadata.name) →
        ∃ t₀ i, firstDraining inst.metadata.uid h = some t₀ ∧ WasListed i h ∧ i.metadata.uid = inst.metadata.uid ∧
          t₀ + drainTimeout i ≤ e.pre) := by
  have hnone : Clocked ∅ [] := by
    intro u x hx
    rw [Std.ExtTreeMap.getElem?_empty] at hx
    cases hx
  have hspec := follows_calls (drains_workloadLife hs order n hnone) t ls he
  rw [hop] at hspec
  exact hspec

/-! ## What counts as a listing -/

-- The same first moment when every read of the instances counts, also one whose pass then fails.
def firstInListings (u : Uid) : Script → Option Int
  | ⟨.list .inst, .ok (insts, _), _, t⟩ :: h => seenAt u insts t (firstInListings u h)
  | ⟨.put .inst o _, .ok _, _, t⟩ :: h => markedAt u o t (firstInListings u h)
  | _ :: h => firstInListings u h
  | [] => none

def deletes : Event Op Res Int → Option (String × Int)
  | ⟨.deleteIfRevision .inst name rev, _, _, _⟩ => some (name, rev)
  | _ => none

theorem op_deletes {e : Event Op Res Int} {name : String} {rev : Int} (h : deletes e = some (name, rev)) :
    e.op = .deleteIfRevision .inst name rev := by
  unfold deletes at h
  split at h
  · cases h
    rfl
  · cases h

/- The last call deletes a listed instance that is DRAINING, of a listed workload, sooner after that
moment than the timeout in its spec. -/
def cutShort : Script → Bool
  | [] => false
  | e :: h =>
    match deletes e, passLists h with
    | some (name, rev), some (wls, insts) => insts.any fun i =>
        i.metadata.name = name && i.metadata.resourceVersion = rev && i.phase = .draining &&
          (wls.any fun w => w.metadata.name = i.spec.workload) &&
          (firstInListings i.metadata.uid h).any fun t₀ => e.pre < t₀ + drainTimeout i
    | _, _ => false

def cartWorkload : Workload where
  metadata := { name := "cart" }
  spec := { template := { containers := [{}] } }

def cartInstance (seconds : Int) : Instance where
  metadata := { name := "cart-1", uid := 9, resourceVersion := 3 }
  spec := { workload := "cart", drain := some { drainTimeoutSeconds := seconds } }
  status := some { phase := .draining }

def unavailable : StoreErr := ⟨.other, "etcd unavailable"⟩

def answers (insts : List Instance) (nodes : Except StoreErr (List Node × Int)) : (op : Op) → Res op
  | .list .workload => .ok ([cartWorkload], 1)
  | .list .inst => .ok (insts, 1)
  | .list .node => nodes
  | .list _ => .ok ([], 1)
  | .get _ _ => .error unavailable
  | .put _ _ _ => .ok 1
  | .delete _ _ => .ok ()
  | .deleteIfRevision _ _ _ => .ok ()
  | .now => 0
  | .hexSuffix => ""
  | .send _ => true
  | .pause => true

def cartLife : Code Unit := workloadLife ⟨fun _ => .ok "h1"⟩ (fun _ names => names) 3 ∅

def steps (n : ℕ) (c : (op : Op) → Res op) : List (Tick scripted) := List.replicate n (.step c)

/- The instance is listed DRAINING; a pass that cannot read the nodes does not list it; thirty seconds
later it is listed again, and deleted at once. -/
def failedRead : List (Tick scripted) :=
  steps 5 (answers [cartInstance 30] (.ok ([], 1))) ++ steps 3 (answers [] (.error unavailable)) ++
  [.move (30000000000 : ℕ)] ++ steps 5 (answers [cartInstance 30] (.ok ([], 1)))

/- The timeout in the spec goes from five seconds to a hundred after the clock was started. -/
def longerSpec : List (Tick scripted) :=
  steps 5 (answers [cartInstance 5] (.ok ([], 1))) ++ [.move (5000000000 : ℕ)] ++
  steps 5 (answers [cartInstance 100] (.ok ([], 1)))

/-- A read that does not show the UID leaves its deadline when the pass then fails, and a deadline is
not set again when the spec changes. -/
theorem drains_cut_short :
    cutShort (runs Proc.next (cartLife.start (M := scripted) 0) failedRead).hist = true ∧
    cutShort (runs Proc.next (cartLife.start (M := scripted) 0) longerSpec).hist = true := by
  decide +kernel

def waitedOut : List (Tick scripted) :=
  steps 5 (answers [cartInstance 30] (.ok ([], 1))) ++ [.move (30000000000 : ℕ)] ++
  steps 5 (answers [cartInstance 30] (.ok ([], 1)))

/-- A life that finds the instance DRAINING deletes it after a full timeout. -/
theorem drain_timeout_full :
    let s := runs Proc.next (cartLife.start (M := scripted) 0) waitedOut
    ∃ e h, s.hist = e :: h ∧ ∃ wls insts inst, passLists h = some (wls, insts) ∧ inst ∈ insts ∧ inst.metadata.name = "cart-1" ∧
      inst.metadata.resourceVersion = 3 ∧ (inst.phase = .draining → inst.spec.workload ∈ wls.map (·.metadata.name) →
        ∃ t₀ i, firstDraining inst.metadata.uid h = some t₀ ∧ WasListed i h ∧ i.metadata.uid = inst.metadata.uid ∧
          t₀ + drainTimeout i ≤ e.pre) := by
  intro s
  have hdel : s.hist.head?.bind deletes = some ("cart-1", 3) := by decide +kernel
  cases hs : s.hist with
  | nil =>
    rw [hs] at hdel
    cases hdel
  | cons e h =>
    rw [hs] at hdel
    have hsuf : e :: h <:+ s.hist := hs.symm ▸ List.suffix_refl (e :: h)
    exact ⟨e, h, rfl, drain_timeout_honoured _ _ 3 0 waitedOut e h hsuf "cart-1" 3 (op_deletes hdel)⟩

end Klite
