import Klite.Controller.WorkloadSpec

/-!
# One rollout pass, alone

What `advance` does to the number of READY instances of a workload when nothing
else writes: it loses the READY ones among those it retires, and no other.
-/

namespace Klite
open Lib

/- One instance has left the READY ones of its workload, and no other record moved. -/
structure Dropped (n : String) (i : Instance) (w w' : World) : Prop where
  others : ∀ m, m ≠ i.metadata.name → w'.store.lookup .inst m = w.store.lookup .inst m
  ready : readyIn w' n + one (i.phase = .ready) = readyIn w n

section Steps
variable {w : World} {n : String} {i : Instance}

theorem dropped_same (hp : i.phase ≠ .ready) : Dropped n i w w :=
  ⟨fun _ _ => rfl, by simp [one, hp]⟩

theorem dropped_removed (hi : Holds w.store .inst i) (hn : i.spec.workload = n) :
    Dropped n i w { w with store := w.store.remove .inst i.metadata.name } := by
  refine ⟨fun m hm => ?_, ?_⟩
  · exact (lookup_remove w.store .inst _ m).trans (if_neg fun he => hm he.symm)
  · rw [← readyOf_mine hn]
    exact count_remove w.store (readyOf n) hi

theorem dropped_retired (hi : Holds w.store .inst i) (hn : i.spec.workload = n) (reason : String) (hv) :
    Dropped n i w { w with store := w.store.write .inst (markedRetired i reason) w.store.uids hv } := by
  refine ⟨fun m hm => ?_, ?_⟩
  · exact (lookup_write w.store .inst _ _ hv m).trans (if_neg fun he => hm he.symm)
  · have hc := count_write w.store (readyOf n) w.store.uids hv hi
    have hnot : readyOf n (stamp (k := .inst) (markedRetired i reason) (w.store.rev + 1)) = false := by
      unfold readyOf
      rw [show (stamp (k := .inst) (markedRetired i reason) (w.store.rev + 1)).phase = .draining from rfl]
      simp
    rw [← readyOf_mine hn]
    rw [hnot] at hc
    exact hc

theorem solo_deleteInstance (p : Progress) (hi : Holds w.store .inst i) (hn : i.spec.workload = n) :
    Alone (fun _ w' => Dropped n i w w') (deleteInstance p i) w := by
  refine solo_call fun c hc r w' he => ?_
  obtain ⟨rfl, rfl⟩ := Prod.mk.inj (he.symm.trans (exec_delete_held hc hi))
  exact dropped_removed hi hn

theorem solo_retire (reason : String) (p : Progress) (hi : Holds w.store .inst i) (hn : i.spec.workload = n) :
    Alone (fun _ w' => Dropped n i w w') (retire reason p i) w := by
  unfold retire
  split
  · exact solo_deleteInstance p hi hn
  · refine solo_call fun c hc r w' he => ?_
    obtain ⟨hv, hput⟩ := exec_put_held hc (o := markedRetired i reason) hi rfl
    obtain ⟨rfl, rfl⟩ := Prod.mk.inj (he.symm.trans hput)
    refine solo_call fun c' _ t w'' he' => ?_
    obtain ⟨-, rfl⟩ := Prod.mk.inj he'
    exact dropped_retired hi hn reason hv

theorem solo_expireDrain (p : Progress) (hi : Holds w.store .inst i) (hn : i.spec.workload = n)
    (hd : i.phase = .draining) : Alone (fun _ w' => Dropped n i w w') (expireDrain p i) w := by
  have hp : i.phase ≠ .ready := by rw [hd]; decide
  unfold expireDrain
  split
  · refine solo_call fun c _ t w' he => ?_
    obtain ⟨-, rfl⟩ := Prod.mk.inj he
    exact dropped_same hp
  · refine solo_call fun c _ t w' he => ?_
    obtain ⟨-, rfl⟩ := Prod.mk.inj he
    split
    · exact dropped_same hp
    · exact solo_deleteInstance p hi hn

theorem solo_drops {f : Progress → Instance → Code Progress} (l : List Instance) (p : Progress)
    (hnames : (l.map (·.metadata.name)).Nodup) (hl : ∀ i ∈ l, Holds w.store .inst i)
    (hf : ∀ p, ∀ i ∈ l, ∀ w', Holds w'.store .inst i → Alone (fun _ w'' => Dropped n i w' w'') (f p i) w') :
    Alone (fun _ w' => (∀ m, m ∉ l.map (·.metadata.name) → w'.store.lookup .inst m = w.store.lookup .inst m) ∧
      readyIn w' n + readyCount l = readyIn w n) (l.foldlM f p) w := by
  induction l generalizing w p with
  | nil => exact ⟨fun _ _ => rfl, rfl⟩
  | cons i l ih =>
    rw [List.map_cons, List.nodup_cons] at hnames
    rw [List.foldlM_cons]
    refine solo_bind (hf p i List.mem_cons_self w (hl i List.mem_cons_self)) ?_
    intro p₁ w₁ hd
    have hrest : ∀ j ∈ l, Holds w₁.store .inst j := by
      intro j hj
      refine (hd.others _ fun he => hnames.1 ?_).trans (hl j (List.mem_cons_of_mem _ hj))
      rw [← he]
      exact List.mem_map_of_mem hj
    refine solo_mono ?_ (ih p₁ hnames.2 hrest fun p j hj => hf p j (List.mem_cons_of_mem _ hj))
    rintro p₂ w₂ ⟨hsame, hready⟩
    refine ⟨fun m hm => ?_, ?_⟩
    · rw [List.map_cons, List.mem_cons, not_or] at hm
      rw [hsame m hm.2, hd.others m hm.1]
    · have hdr := hd.ready
      have hcons : readyCount (i :: l) = readyCount l + one (i.phase = .ready) := List.countP_cons
      omega

def createPending : Rights where
  create
    | .inst, _, _, o => Instance.phase o = .pending
    | _, _, _, _ => False
  edit _ _ _ _ _ := False
  remove _ _ _ _ := False

theorem readyIn_create (c : Choice) {o : Instance} (hp : o.phase = .pending) :
    readyIn (exec c (.put .inst o revCreate) w).2 n = readyIn w n := by
  have hw : Within createPending [] w (.put .inst o revCreate) := Or.inl ⟨rfl, hp⟩
  rcases change_swap (exec_change c hw) .inst with
    hs | ⟨o', -, hr, -, hs⟩ | ⟨_, _, _, _, hr, _⟩ | ⟨_, hr, _⟩
  · exact hs.count _
  · have hnot : readyOf n (stamp (k := .inst) (minted w.store w.unix o') (w.store.rev + 1)) = false := by
      unfold readyOf
      rw [show (stamp (k := .inst) (minted w.store w.unix o') (w.store.rev + 1)).phase = .pending from hr]
      simp
    have hc := hs.count (readyOf n)
    rw [Option.any_some, hnot] at hc
    exact hc
  · exact hr.elim
  · exact hr.elim

theorem solo_createLoop (wl : Workload) (container : Container) (hash : String) (p : Progress) (k : ℕ) :
    Alone (fun _ w' => readyIn w' n = readyIn w n) (createLoop wl container hash p k) w := by
  induction k generalizing w with
  | zero => exact rfl
  | succ k ih =>
    refine solo_call fun c _ suffix w₁ he₁ => ?_
    obtain ⟨-, rfl⟩ := Prod.mk.inj he₁
    refine solo_call fun c' _ r w₂ he₂ => ?_
    have hready : readyIn w₂ n = readyIn w n := by
      obtain rfl : _ = w₂ := congrArg Prod.snd he₂
      exact readyIn_create c' rfl
    cases r with
    | ok _ => exact hready
    | error e =>
      dsimp only
      split
      · exact solo_mono (fun _ _ h => h.trans hready) ih
      · exact hready

end Steps

-- `hash` and `drainingNodes` of one pass over one workload.
section Pass
variable (wl : Workload) (container : Container) (hash : String) (drainingNodes : List String)

def minesIn (w : World) : List Instance :=
  (w.store.listing .inst).filter fun i => i.spec.workload = wl.metadata.name

def rollRetired (g : Groups) (victim : Instance) : List Instance :=
  let r := wl.spec.replicas
  let total : Int := g.fresh.length + g.retiring.length
  let ready : Int := readyCount g.fresh
  if total = r ∧ ready = g.fresh.length then []
  else if total > r ∧ ready ≥ min r g.fresh.length then [victim]
  else if total > r ∧ surgeBlocked g.fresh then [victim]
  else []

-- What `advanceFresh` retires: the surplus, or the one victim of a rollout step.
def retired (g : Groups) : List Instance :=
  let surplus : Int := g.fresh.length - wl.spec.replicas
  let missing : Int := wl.spec.replicas - g.fresh.length - g.retiring.length
  if surplus > 0 then g.fresh.take surplus.toNat
  else if missing > 0 then []
  else match g.retiring with
    | [] => []
    | victim :: _ => if g.draining ≠ [] then [] else rollRetired wl g victim

theorem mem_minesIn {w : World} {i : Instance} :
    i ∈ minesIn wl w ↔ Holds w.store .inst i ∧ i.spec.workload = wl.metadata.name := by
  unfold minesIn
  rw [List.mem_filter, mem_listing, decide_eq_true_eq]

section Solo
variable {wl container hash} {w : World} {n : String} {g : Groups}

theorem solo_victim (reason : String) (p : Progress) {v : Instance} (hv : Holds w.store .inst v ∧ v.spec.workload = n) :
    Alone (fun _ w' => readyIn w' n + readyCount [v] = readyIn w n) (retire reason p v) w := by
  refine solo_mono (fun _ w' hd => ?_) (solo_retire reason p hv.1 hv.2)
  have hone : readyCount [v] = one (v.phase = .ready) := by simp [readyCount, one, List.countP_cons]
  rw [hone]
  exact hd.ready

theorem solo_rollStep (p : Progress) {v : Instance} (hv : Holds w.store .inst v ∧ v.spec.workload = n) :
    Alone (fun _ w' => readyIn w' n + readyCount (rollRetired wl g v) = readyIn w n)
      (rollStep wl container hash g v p) w := by
  unfold rollStep rollRetired
  dsimp only
  split
  · exact solo_createLoop wl container hash p casRetries
  · split
    · exact solo_victim _ p hv
    · split
      · exact solo_victim _ p hv
      · exact rfl

theorem solo_advanceFresh (h0 : 0 ≤ wl.spec.replicas) (p : Progress)
    (hfresh : ∀ i ∈ g.fresh, Holds w.store .inst i ∧ i.spec.workload = n)
    (hretiring : ∀ i ∈ g.retiring, Holds w.store .inst i ∧ i.spec.workload = n)
    (hnames : (g.fresh.map (·.metadata.name)).Nodup) :
    Alone (fun _ w' => readyIn w' n + readyCount (retired wl g) = readyIn w n)
      (advanceFresh wl container hash g p) w := by
  unfold advanceFresh retired
  dsimp only
  split
  · rw [if_neg (by omega)]
    refine solo_mono (fun _ w' hd => hd.2) (solo_drops _ p ?_ ?_ ?_)
    · exact (List.Sublist.map _ (List.take_sublist _ _)).nodup hnames
    · exact fun i hi => (hfresh i (List.mem_of_mem_take hi)).1
    · exact fun p i hi w' hh => solo_retire _ p hh (hfresh i (List.mem_of_mem_take hi)).2
  · split
    · refine solo_foldlM (M := klited) _ (fun _ w' => readyIn w' n = readyIn w n) ?_ _ p w rfl
      intro _ _ p' w' hw'
      exact solo_mono (fun _ _ h => h.trans hw') (solo_createLoop wl container hash p' casRetries)
    · cases hg : g.retiring with
      | nil => exact rfl
      | cons v rest =>
        dsimp only
        split
        · exact rfl
        · exact solo_rollStep p (hretiring v (by rw [hg]; exact List.mem_cons_self))

end Solo

section Groups
variable {wl hash drainingNodes} {w : World}

theorem minesIn_names : ((minesIn wl w).map (·.metadata.name)).Nodup := by
  unfold minesIn
  exact (List.Sublist.map _ List.filter_sublist).nodup (listing_names w.store .inst)

theorem ofRole_names (r : Role) : ((ofRole hash drainingNodes r (minesIn wl w)).map (·.metadata.name)).Nodup :=
  (List.Sublist.map _ List.filter_sublist).nodup minesIn_names

theorem ofRole_disjoint {i : Instance} (hi : i ∈ minesIn wl w) {r : Role} (hr : roleOf hash drainingNodes i ≠ r) :
    i.metadata.name ∉ (ofRole hash drainingNodes r (minesIn wl w)).map (·.metadata.name) := by
  intro hm
  obtain ⟨j, hj, hn⟩ := List.mem_map.mp hm
  obtain ⟨hjm, hjr⟩ := mem_ofRole.mp hj
  have hji : j = i := listing_name_inj (k := .inst) (mem_listing.mpr ((mem_minesIn wl).mp hjm).1)
    (mem_listing.mpr ((mem_minesIn wl).mp hi).1) hn
  exact hr (hji ▸ hjr)

theorem solo_advance (hash : String) (drainingNodes : List String) (container : Container) (h0 : 0 ≤ wl.spec.replicas) (p : Progress) :
    Alone (fun _ w' => readyIn w' wl.metadata.name +
        readyCount (retired wl (classify hash drainingNodes (minesIn wl w))) = readyIn w wl.metadata.name)
      (advance wl container hash (minesIn wl w) drainingNodes p) w := by
  have hmine : ∀ {r i}, i ∈ ofRole hash drainingNodes r (minesIn wl w) →
      Holds w.store .inst i ∧ i.spec.workload = wl.metadata.name :=
    fun hi => (mem_minesIn wl).mp (mem_ofRole.mp hi).1
  unfold advance
  dsimp only
  refine solo_bind (solo_drops (n := wl.metadata.name) _ p (ofRole_names .doomed)
    (fun i hi => (hmine hi).1) fun p i hi w' hh => solo_deleteInstance p hh (hmine hi).2) ?_
  rintro p₁ w₁ ⟨hsame₁, hready₁⟩
  have hheld₁ : ∀ {r i}, r ≠ .doomed → i ∈ ofRole hash drainingNodes r (minesIn wl w) →
      Holds w₁.store .inst i := by
    intro r i hr hi
    obtain ⟨him, hir⟩ := mem_ofRole.mp hi
    exact (hsame₁ _ (ofRole_disjoint him (hir ▸ hr))).trans (hmine hi).1
  refine solo_bind (solo_drops (n := wl.metadata.name) _ p₁ (ofRole_names .draining)
    (fun i hi => hheld₁ (by decide) hi)
    fun p i hi w' hh => solo_expireDrain p hh (hmine hi).2 (roleOf_draining.mp (mem_ofRole.mp hi).2)) ?_
  rintro p₂ w₂ ⟨hsame₂, hready₂⟩
  have hheld₂ : ∀ {r i}, r ≠ .doomed → r ≠ .draining →
      i ∈ sortNewestFirst (ofRole hash drainingNodes r (minesIn wl w)) →
      Holds w₂.store .inst i ∧ i.spec.workload = wl.metadata.name := by
    intro r i hr hr' hi
    rw [mem_sortNewestFirst] at hi
    obtain ⟨him, hir⟩ := mem_ofRole.mp hi
    exact ⟨(hsame₂ _ (ofRole_disjoint him (hir ▸ hr'))).trans (hheld₁ hr hi), (hmine hi).2⟩
  refine solo_mono (fun _ w' hd => ?_) (solo_advanceFresh (w := w₂) h0 p₂
    (fun i hi => hheld₂ (by decide) (by decide) hi) (fun i hi => hheld₂ (by decide) (by decide) hi) ?_)
  · have hdoomed : readyCount (classify hash drainingNodes (minesIn wl w)).doomed = 0 :=
      readyCount_zero fun i hi => roleOf_doomed (mem_ofRole.mp hi).2
    have hdraining : readyCount (classify hash drainingNodes (minesIn wl w)).draining = 0 :=
      readyCount_zero fun i hi => by
        rw [roleOf_draining.mp (mem_ofRole.mp hi).2]
        decide
    change readyIn w' _ + readyCount (retired wl (classify hash drainingNodes (minesIn wl w))) = _ at hd
    omega
  · exact ((List.perm_insertionSort newerFirst _).map _).nodup_iff.mpr (ofRole_names .fresh)

theorem readyIn_mines : readyIn w wl.metadata.name = readyCount (minesIn wl w) := by
  unfold readyIn readyCount minesIn Store.count
  rw [List.countP_filter]
  refine List.countP_congr fun i _ => ?_
  simp [readyOf, and_comm]

end Groups

/- The drain-first fallback: a surge that waits for READY while the scheduler has
refused it a place. -/
def fallsBack (g : Groups) : Bool :=
  (g.fresh.length : Int) ≤ wl.spec.replicas ∧ g.retiring ≠ [] ∧ g.draining = [] ∧
  (g.fresh.length : Int) + g.retiring.length > wl.spec.replicas ∧
  (readyCount g.fresh : Int) < min wl.spec.replicas g.fresh.length ∧ surgeBlocked g.fresh

def surplusOf (g : Groups) : ℕ := g.fresh.length - wl.spec.replicas.toNat

/- Of the fresh instances, the newest that are too many are not READY, or the older
ones that stay are all READY. -/
def SparesReady (g : Groups) : Prop :=
  (∀ x ∈ g.fresh.take (surplusOf wl g), x.phase ≠ .ready) ∨
  (∀ y ∈ g.fresh.drop (surplusOf wl g), y.phase = .ready)

section Capacity
variable {wl} {g : Groups}

theorem retired_surplus (h0 : 0 ≤ wl.spec.replicas) (hs : 0 < surplusOf wl g) :
    retired wl g = g.fresh.take (surplusOf wl g) := by
  unfold surplusOf at hs ⊢
  unfold retired
  dsimp only
  rw [if_pos (by omega)]
  congr 1
  omega

theorem retired_victim (h0 : 0 ≤ wl.spec.replicas) (hs : surplusOf wl g = 0) (hfb : ¬ fallsBack wl g) :
    readyCount (retired wl g) = 0 ∨ (readyCount (retired wl g) ≤ 1 ∧
      wl.spec.replicas < readyCount g.fresh + g.retiring.length) := by
  have hone : ∀ v : Instance, readyCount [v] ≤ 1 := fun v => List.countP_le_length
  unfold surplusOf at hs
  unfold retired
  dsimp only
  rw [if_neg (by omega)]
  split
  · exact Or.inl rfl
  · cases hg : g.retiring with
    | nil => exact Or.inl rfl
    | cons v rest =>
      have hlen : (g.retiring.length : Int) = (v :: rest).length := by rw [hg]
      dsimp only
      split
      · exact Or.inl rfl
      · rename_i hd
        unfold rollRetired
        dsimp only
        split
        · exact Or.inl rfl
        · split
          · rename_i hroll
            exact Or.inr ⟨hone v, by omega⟩
          · rename_i hwait
            split
            · rename_i hblocked
              refine absurd ?_ hfb
              have hne : g.retiring ≠ [] := by rw [hg]; simp
              simp only [fallsBack, decide_eq_true_eq]
              exact ⟨by omega, hne, not_not.mp hd, hblocked.1, by omega, hblocked.2⟩
            · exact Or.inl rfl

theorem sparesReady_iff (h0 : 0 ≤ wl.spec.replicas) (hs : 0 < surplusOf wl g) :
    SparesReady wl g ↔ readyCount (g.fresh.take (surplusOf wl g)) = 0 ∨
      (readyCount (g.fresh.drop (surplusOf wl g)) : Int) = wl.spec.replicas := by
  have hlen : ((g.fresh.drop (surplusOf wl g)).length : Int) = wl.spec.replicas := by
    rw [List.length_drop]
    unfold surplusOf at hs ⊢
    omega
  rw [← hlen]
  unfold SparesReady readyCount
  rw [List.countP_eq_zero, Int.natCast_inj, List.countP_eq_length]
  simp

end Capacity

/-- One `advance` pass over a workload's stored instances, without a store error and
without the drain-first fallback: it keeps min(r, READY) instances READY, and min(r, READY
fresh) of those it does not retire for being too many, exactly when the instances that are
too many are not READY or those that stay all are. -/
theorem advance_capacity (w : World) (cs : ℕ → Choice) (p : Progress) (h0 : 0 ≤ wl.spec.replicas)
    (hcs : ∀ i, (cs i).fault = .none)
    (hfb : ¬ fallsBack wl (classify hash drainingNodes (minesIn wl w))) :
    let g := classify hash drainingNodes (minesIn wl w)
    let ran := (advance wl container hash (minesIn wl w) drainingNodes p).eval klited cs w
    ran.1.isSome ∧
    ((min wl.spec.replicas (readyIn w wl.metadata.name) ≤ readyIn ran.2 wl.metadata.name ∧
      min wl.spec.replicas (readyCount g.fresh) ≤ readyCount (g.fresh.drop (surplusOf wl g))) ↔
      SparesReady wl g) := by
  intro g ran
  obtain ⟨p', hret, hready⟩ := solo_eval (M := klited) (C := Reliable) _ w cs hcs
    (solo_advance hash drainingNodes container h0 p)
  refine ⟨by rw [hret]; rfl, ?_⟩
  change readyIn ran.2 _ + readyCount (retired wl g) = _ at hready
  have hroles : readyIn w wl.metadata.name = readyCount g.fresh + g.retiring.length := by
    rw [readyIn_mines, readyCount_roles hash drainingNodes, ← readyCount_sortNewestFirst,
      ← length_sortNewestFirst]
    rfl
  have hsplit := readyCount_split g.fresh (surplusOf wl g)
  by_cases hs : 0 < surplusOf wl g
  · rw [sparesReady_iff h0 hs]
    rw [retired_surplus h0 hs] at hready
    have hle : readyCount (g.fresh.drop (surplusOf wl g)) ≤ (g.fresh.drop (surplusOf wl g)).length :=
      List.countP_le_length
    have hlen : ((g.fresh.drop (surplusOf wl g)).length : Int) = wl.spec.replicas := by
      rw [List.length_drop]
      unfold surplusOf at hs ⊢
      omega
    omega
  · have hz : surplusOf wl g = 0 := by omega
    have hspare : SparesReady wl g := Or.inl (by rw [hz]; simp)
    have hv := retired_victim h0 hz hfb
    rw [hz] at hsplit ⊢
    simp only [hspare, iff_true, List.drop_zero]
    omega

end Pass

section Runs

def webOne : Workload where
  metadata := { name := "web" }
  spec := { replicas := 1, template := { containers := [{}] } }

def webInstance (name : String) (phase : InstancePhase) : Instance where
  metadata := { name := name }
  spec := { workload := "web", node := "a", templateHash := "h" }
  status := some { phase := phase }

def pairWorld (older newer : InstancePhase) : World :=
  ⟨((Store.empty.put 7 .inst (webInstance "web-1a2b" older) revCreate).2.put 8 .inst
    (webInstance "web-3c4d" newer) revCreate).2, 9 * second⟩

def scaleDown (w : World) : Option Progress × World :=
  (advance webOne {} "h" (minesIn webOne w) [] {}).eval klited (fun _ => {}) w

/- The older instance still starts; the pass drains the newer one, which serves. -/
theorem advance_drains_last_ready : ¬ fallsBack webOne (classify "h" [] (minesIn webOne (pairWorld .pending .ready))) ∧
    readyIn (pairWorld .pending .ready) "web" = 1 ∧ readyIn (scaleDown (pairWorld .pending .ready)).2 "web" = 0 := by
  decide +kernel

theorem advance_capacity_pair : min 1 (readyIn (pairWorld .ready .ready) "web" : Int) ≤
      readyIn (scaleDown (pairWorld .ready .ready)).2 "web" := by
  have h := (advance_capacity webOne {} "h" [] (pairWorld .ready .ready) (fun _ => {}) {} (by decide)
    (fun _ => rfl) (by decide +kernel)).2
  refine (h.mpr (Or.inr ?_)).1
  decide +kernel

end Runs

end Klite
