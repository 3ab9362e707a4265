import Klite.Safety.Instances

/-!
# Counting through a rollout

The scheduler binds and agents report while a rollout goes on. What a store call
does to the instances of one workload is kept in numbers: how many fresh instances
it adds, and how many READY ones it retires.
-/

namespace Klite
open Lib

-- A workload whose spec stays as it is while the nodes in `draining` are drained.
structure Rollout (hs : Hasher) where
  name : String
  spec : WorkloadSpec
  hash : String
  draining : List String
  hashed : hs.templateHash spec.template = .ok hash

def waitsRefused (i : Instance) : Bool :=
  i.spec.node = "" ∧ (i.getStatus.message = msgNoCapacity ∨ hasPrefix i.getStatus.message "pinned node ")

section Moves
variable {d : List String} {cur new : Instance}

def Forward (a b : InstancePhase) : Prop :=
  a = b ∨ (a = .pending ∧ (b = .running ∨ b = .ready)) ∨ (a = .running ∧ b = .ready)

theorem forward_draining {a b : InstancePhase} (h : Forward a b) : b = .draining ↔ a = .draining := by
  rcases h with rfl | ⟨rfl, rfl | rfl⟩ | ⟨rfl, rfl⟩ <;> simp

theorem forward_ready {a b : InstancePhase} (h : Forward a b) (ha : a = .ready) : b = .ready := by
  subst ha
  rcases h with rfl | ⟨h, -⟩ | ⟨h, -⟩
  · rfl
  · cases h
  · cases h

/- What the scheduler and the agents do to an instance, as far as the rollout looks. -/
structure Moves (d : List String) (cur new : Instance) : Prop where
  workload : new.spec.workload = cur.spec.workload
  hash : new.spec.templateHash = cur.spec.templateHash
  node : new.spec.node ∈ d ↔ cur.spec.node ∈ d
  draining : new.phase = .draining ↔ cur.phase = .draining
  ready : cur.phase = .ready → new.phase = .ready
  refused : waitsRefused new → waitsRefused cur

theorem moves_bound {node : String} (h0 : "" ∉ d) (hcur : cur.spec.node = "") (hne : node ≠ "")
    (hd : node ∉ d) : Moves d cur (boundTo cur node) := by
  have hph := boundTo_phase cur node
  refine ⟨rfl, rfl, ?_, ?_, ?_, ?_⟩
  · rw [hcur]
    exact ⟨fun h => absurd h hd, fun h => absurd h h0⟩
  · rcases hph with hp | ⟨hu, hp⟩
    · rw [hp]
    · rw [hp, hu]
      simp
  · intro hr
    rcases hph with hp | ⟨hu, -⟩
    · rw [hp, hr]
    · rw [hu] at hr
      cases hr
  · intro hw
    simp only [waitsRefused, decide_eq_true_eq] at hw
    exact absurd hw.1 hne

theorem moves_reported {req : ReportStatusRequest} (he : ReportInstanceEdit req cur new)
    (hf : Forward cur.phase new.phase) : Moves d cur new := by
  obtain ⟨hspec, -⟩ := report_keeps he
  refine ⟨by rw [hspec], by rw [hspec], by rw [hspec], forward_draining hf, forward_ready hf, ?_⟩
  intro hw
  simp only [waitsRefused, decide_eq_true_eq] at hw
  obtain ⟨h0, u, -, st, -, -, -, hnode, rfl⟩ := he
  exact absurd (hnode.symm.trans hw.1) h0

theorem moves_role (hash : String) (h : Moves d cur new) : roleOf hash d new = roleOf hash d cur ∨
    (roleOf hash d cur = .doomed ∧ roleOf hash d new = .retiring) := by
  unfold roleOf
  simp only [h.draining, h.hash, h.node]
  split
  · exact Or.inl rfl
  · split
    · exact Or.inl rfl
    · by_cases hr : cur.phase = .ready
      · rw [if_pos hr, if_pos (h.ready hr)]
        exact Or.inl rfl
      · rw [if_neg hr]
        split
        · exact Or.inr ⟨rfl, rfl⟩
        · exact Or.inl rfl

end Moves

section Tally
variable {hs : Hasher} (ro : Rollout hs)

abbrev Rollout.is (r : Role) : Instance → Bool := hasRole ro.name ro.hash ro.draining r

def Rollout.waits (i : Instance) : Bool := ro.is .fresh i && waitsRefused i

def Rollout.count (w : World) (r : Role) : ℕ := w.store.count .inst (ro.is r)

def Rollout.refused (w : World) : ℕ := w.store.count .inst ro.waits

/- From one world to a later one at most `a` fresh instances were added and `b` READY
ones retired. Without doomed instances no others come to count. -/
structure StepTally (a b : ℕ) (w w' : World) : Prop where
  fresh : ro.count w' .fresh ≤ ro.count w .fresh + a
  draining : ro.count w' .draining ≤ ro.count w .draining + b
  ready : readyIn w ro.name ≤ readyIn w' ro.name + b
  refused : ro.refused w = 0 → ro.refused w' = 0
  covered : ro.count w .doomed = 0 → ro.count w' .doomed = 0 ∧
    ro.count w' .fresh + ro.count w' .retiring ≤ ro.count w .fresh + ro.count w .retiring + a

/- The same of the one object a store call touches. -/
structure SwapTally (a b : ℕ) (cur new : Option Instance) : Prop where
  fresh : one (new.any (ro.is .fresh)) ≤ one (cur.any (ro.is .fresh)) + a
  draining : one (new.any (ro.is .draining)) ≤ one (cur.any (ro.is .draining)) + b
  ready : one (cur.any (readyOf ro.name)) ≤ one (new.any (readyOf ro.name)) + b
  refused : cur.any ro.waits = false → new.any ro.waits = false
  covered : cur.any (ro.is .doomed) = false → new.any (ro.is .doomed) = false ∧
    one (new.any (ro.is .fresh)) + one (new.any (ro.is .retiring)) ≤
      one (cur.any (ro.is .fresh)) + one (cur.any (ro.is .retiring)) + a

variable {ro}

theorem stepTally_refl (a b : ℕ) (w : World) : StepTally ro a b w w :=
  ⟨Nat.le_add_right _ _, Nat.le_add_right _ _, Nat.le_add_right _ _, id,
    fun h => ⟨h, Nat.le_add_right _ _⟩⟩

variable {a b : ℕ} {w w' : World}

theorem stepTally_trans {a' b' : ℕ} {w'' : World} (h : StepTally ro a b w w') (h' : StepTally ro a' b' w' w'') :
    StepTally ro (a + a') (b + b') w w'' := by
  have := h.fresh; have := h'.fresh; have := h.draining; have := h'.draining
  have := h.ready; have := h'.ready
  refine ⟨by omega, by omega, by omega, fun hz => h'.refused (h.refused hz), fun hz => ?_⟩
  obtain ⟨hz', hle⟩ := h.covered hz
  obtain ⟨hz'', hle'⟩ := h'.covered hz'
  exact ⟨hz'', by omega⟩

theorem stepTally_mono {a' b' : ℕ} (h : StepTally ro a b w w') (ha : a ≤ a') (hb : b ≤ b') :
    StepTally ro a' b' w w' := by
  have := h.fresh; have := h.draining; have := h.ready
  refine ⟨by omega, by omega, by omega, h.refused, fun hz => ⟨(h.covered hz).1, ?_⟩⟩
  have := (h.covered hz).2
  omega

theorem any_of_count {s : Store} {k : Kind} {p : k.Obj → Bool} {cur : Option k.Obj}
    (hheld : ∀ o ∈ cur, Holds s k o) (hz : s.count k p = 0) : cur.any p = false := by
  cases cur with
  | none => rfl
  | some o =>
    by_contra hp
    exact absurd hz (Nat.ne_of_gt (count_pos s (hheld o rfl) (Bool.eq_true_of_not_eq_false hp)))

theorem stepTally_swap {cur new : Option Instance} (hs : Swap w.store w'.store .inst cur new)
    (ht : SwapTally ro a b cur new) : StepTally ro a b w w' := by
  have hf := hs.count (ro.is .fresh); have hd := hs.count (ro.is .draining)
  have hr := hs.count (readyOf ro.name); have hw := hs.count ro.waits
  have hz := hs.count (ro.is .doomed); have ht' := hs.count (ro.is .retiring)
  have := ht.fresh; have := ht.draining; have := ht.ready
  refine ⟨by unfold Rollout.count; omega, by unfold Rollout.count; omega,
    by unfold readyIn; omega, fun h0 => ?_, fun h0 => ?_⟩
  · have hc := any_of_count hs.held h0
    have hn := ht.refused hc
    rw [hc, hn] at hw
    unfold Rollout.refused at h0 ⊢
    omega
  · have hc := any_of_count hs.held h0
    obtain ⟨hn, hle⟩ := ht.covered hc
    rw [hc, hn] at hz
    unfold Rollout.count at h0 ⊢
    exact ⟨by omega, by omega⟩

theorem stepTally_same (h : w'.store = w.store) : StepTally ro 0 0 w w' := by
  have hs : Swap w.store w'.store .inst none none := by
    refine ⟨fun o ho => ?_, fun p => by rw [h]⟩
    cases ho
  exact stepTally_swap hs ⟨le_refl _, le_refl _, le_refl _, id, fun hz => ⟨hz, le_refl _⟩⟩

section Swaps
variable {cur new : Instance}
variable {i : Instance}

theorem is_other (h : i.spec.workload ≠ ro.name) (r : Role) : ro.is r i = false := by
  simp [hasRole, h]

theorem is_mine (h : i.spec.workload = ro.name) (r : Role) : ro.is r i = decide (roleOf ro.hash ro.draining i = r) := by
  simp [hasRole, h]

theorem any_other {o : Option Instance} (h : ∀ i ∈ o, i.spec.workload ≠ ro.name) :
    (∀ r, o.any (ro.is r) = false) ∧ o.any (readyOf ro.name) = false ∧ o.any ro.waits = false := by
  cases o with
  | none => exact ⟨fun _ => rfl, rfl, rfl⟩
  | some i =>
    have hi := h i rfl
    exact ⟨is_other hi, by simp [readyOf, hi], by simp [Rollout.waits, is_other hi]⟩

theorem swapTally_other (a b : ℕ) {cur new : Option Instance}
    (hc : ∀ i ∈ cur, i.spec.workload ≠ ro.name) (hn : ∀ i ∈ new, i.spec.workload ≠ ro.name) :
    SwapTally ro a b cur new := by
  obtain ⟨hc₁, hc₂, hc₃⟩ := any_other hc
  obtain ⟨hn₁, hn₂, hn₃⟩ := any_other hn
  constructor <;> simp [hc₁, hc₂, hc₃, hn₁, hn₂, hn₃, one]

theorem swapTally_moves (hm : Moves ro.draining cur new) (hc : cur.spec.workload = ro.name) :
    SwapTally ro 0 0 (some cur) (some new) := by
  have hn := hm.workload.trans hc
  have hready : one (readyOf ro.name cur) ≤ one (readyOf ro.name new) := by
    rw [readyOf_mine hc, readyOf_mine hn]
    by_cases hr : cur.phase = .ready
    · rw [hr, hm.ready hr]
    · rw [decide_eq_false hr]
      exact Nat.zero_le _
  have hrefused : ro.waits cur = false → ro.is .fresh new = ro.is .fresh cur → ro.waits new = false := by
    intro hw he
    unfold Rollout.waits at hw ⊢
    rw [he]
    cases hf : ro.is .fresh cur with
    | false => rfl
    | true =>
      rw [hf, Bool.true_and] at hw
      rw [Bool.true_and, Bool.eq_false_iff]
      exact fun hn => Bool.eq_false_iff.mp hw (hm.refused hn)
  rcases moves_role ro.hash hm with hr | ⟨hd, hr⟩
  · have he : ∀ r, ro.is r new = ro.is r cur := fun r => by rw [is_mine hn, is_mine hc, hr]
    constructor <;> simp only [Option.any_some, he]
    · omega
    · omega
    · exact hready
    · exact fun hw => hrefused hw (he _)
    · exact fun hw => ⟨hw, le_refl _⟩
  · have he : ∀ r, r ≠ .doomed → r ≠ .retiring → ro.is r new = ro.is r cur := fun r h₁ h₂ => by
      rw [is_mine hn, is_mine hc, hr, hd]
      simp [h₁.symm, h₂.symm]
    constructor <;> simp only [Option.any_some, he .fresh (by decide) (by decide), he .draining (by decide) (by decide)]
    · omega
    · omega
    · exact hready
    · exact fun hw => hrefused hw (he _ (by decide) (by decide))
    · intro hw
      rw [is_mine hc, hd] at hw
      cases hw

theorem swapTally_created (h0 : "" ∉ ro.draining) (b : ℕ) (hw : i.spec.workload = ro.name)
    (hh : i.spec.templateHash = ro.hash) (hn : i.spec.node = "") (hst : i.status = some { phase := .pending }) :
    SwapTally ro 1 b none (some i) := by
  have hp : i.phase = .pending := phase_of_status (j := { i with status := some { phase := .pending } }) hst
  have hrole : roleOf ro.hash ro.draining i = .fresh := by
    unfold roleOf
    rw [if_neg (by rw [hp]; decide), if_pos ⟨hh, by rw [hn]; exact h0⟩]
  have hwait : ro.waits i = false := by
    have hmsg : i.getStatus.message = "" := by unfold Instance.getStatus; rw [hst]; rfl
    have : waitsRefused i = false := by
      unfold waitsRefused
      rw [hmsg]
      simp only [decide_eq_false_iff_not]
      rintro ⟨-, h | h⟩
      · exact absurd h (by decide)
      · exact absurd h (by decide)
    rw [Rollout.waits, this, Bool.and_false]
  constructor <;> simp [is_mine hw, hrole, hwait, readyOf, one]

theorem swapTally_retired (a : ℕ) (reason : String) (hc : cur.spec.workload = ro.name) :
    SwapTally ro a 1 (some cur) (some (markedRetired cur reason)) := by
  have hrole : roleOf ro.hash ro.draining (markedRetired cur reason) = .draining := roleOf_draining.mpr rfl
  have hone : ∀ c, one c ≤ 1 := fun c => by cases c <;> decide
  have hn : (markedRetired cur reason).spec.workload = ro.name := hc
  constructor <;> simp only [Option.any_some, is_mine hn, hrole, Rollout.waits, reduceCtorEq, decide_false,
    decide_true, Bool.false_and]
  · exact Nat.zero_le _
  · exact Nat.le_add_left 1 _
  · exact le_trans (hone _) (Nat.le_add_left 1 _)
  · exact fun _ => trivial
  · exact fun _ => ⟨trivial, Nat.zero_le _⟩

theorem swapTally_removed (a b : ℕ) (hc : cur.phase ≠ .ready) : SwapTally ro a b (some cur) none := by
  have hr : readyOf ro.name cur = false := by simp [readyOf, hc]
  constructor <;> simp [hr, one]

theorem swapTally_stamp {c : Option Instance} {r : Int} (h : SwapTally ro a b c (some new)) :
    SwapTally ro a b c (some (stamp (k := .inst) new r)) := ⟨h.fresh, h.draining, h.ready, h.refused, h.covered⟩

end Swaps

end Tally

def Call.rolls : Call → Bool
  | .workload _ _ | .scheduler | .reportStatus _ _ => true
  | _ => false

theorem rolls_modelled (g : Call) (h : g.rolls) : g.modelled := by
  cases g with
  | other p => cases h
  | _ => rfl

section World
variable {cfg : Config} (ro : Rollout cfg.hasher)

structure Rolling (w : World) : Prop where
  workload : ∃ wl : Workload, Holds w.store .workload wl ∧ wl.metadata.name = ro.name ∧ wl.spec = ro.spec
  nodes : ∀ m, phaseAt w m = some .draining ↔ m ∈ ro.draining
  fresh : (ro.count w .fresh : Int) ≤ ro.spec.replicas
  unrefused : ro.refused w = 0

-- With `tight`, the instances are fresh, READY or draining, one more than asked for at most.
structure Steady (tight : Prop) (w : World) : Prop extends Rolling ro w where
  covered : tight → ro.count w .doomed = 0 ∧
    (ro.count w .fresh : Int) + ro.count w .retiring ≤ ro.spec.replicas + 1

variable {ro}

theorem empty_not_draining {w : World} (hw : Rolling ro w) : "" ∉ ro.draining := by
  intro hm
  obtain ⟨e, hl, -⟩ := Option.map_eq_some_iff.mp ((hw.nodes "").mpr hm)
  exact absurd (lookup_some (o := e.1) (r := e.2) hl).2.2.1 (by decide)

theorem mem_drainingNames {w : World} {m : String} :
    m ∈ drainingNames (w.store.listing .node) ↔ phaseAt w m = some .draining := by
  unfold drainingNames phaseAt
  rw [List.mem_map, Option.map_eq_some_iff]
  constructor
  · rintro ⟨node, hm, rfl⟩
    obtain ⟨hl, hp⟩ := List.mem_filter.mp hm
    exact ⟨_, mem_listing.mp hl, of_decide_eq_true hp⟩
  · rintro ⟨⟨node, r⟩, hl, hp⟩
    exact ⟨node, List.mem_filter.mpr ⟨mem_listing.mpr (holds_of_lookup hl), decide_eq_true hp⟩,
      (lookup_some hl).1⟩

section Records
variable {g : Call} {h : Log} {w w' : World} {op : Op}

theorem rolls_records (hg : g.rolls) {k : Kind} {o : k.Obj}
    (hr : (rights cfg g).create k h w o ∨ (rights cfg g).remove k h w o) : g.isWorkload ∧ k = .inst := by
  cases g with
  | workload order passes =>
    cases k with
    | inst => exact ⟨rfl, rfl⟩
    | _ => exact hr.elim False.elim False.elim
  | scheduler => exact hr.elim False.elim False.elim
  | reportStatus p req => exact hr.elim False.elim False.elim
  | _ => cases hg

theorem workload_kept (hg : g.rolls) (hch : Change (rights cfg g) h w op w'.store) {wl : Workload}
    (hw : Holds w.store .workload wl) :
    ∃ wl' : Workload, Holds w'.store .workload wl' ∧ wl'.metadata.name = wl.metadata.name ∧ wl'.spec = wl.spec := by
  rcases change_record hch .workload wl.metadata.name with
    hs | ⟨o, -, hnone, -⟩ | ⟨cur, r, o, -, hl, hr, hn, hp⟩ | ⟨cur, r, -, -, hr, -⟩
  · exact ⟨wl, hs.trans hw, rfl, rfl⟩
  · exact absurd (hnone.symm.trans hw) (by simp)
  · obtain rfl : cur = wl := (Prod.mk.inj (Option.mem_unique hl hw)).1
    refine ⟨_, holds_of_lookup hp, hn, ?_⟩
    cases g with
    | workload order passes =>
      obtain ⟨-, st, rfl⟩ := hr
      rfl
    | scheduler => exact hr.elim
    | reportStatus p req => exact hr.elim
    | _ => cases hg
  · cases (rolls_records hg (.inr hr)).2

theorem reportNode_draining {name : String} {cur new : Node} (he : ReportNodeEdit name h cur new) :
    new.phase = .draining ↔ cur.phase = .draining := by
  obtain ⟨-, ⟨unix, adv, rfl⟩ | ⟨i, -, -, rfl⟩ | ⟨rfl, -⟩⟩ := he
  · show stampPhase cur.phase = .draining ↔ _
    unfold stampPhase
    split <;> simp_all
  · exact Iff.rfl
  · exact Iff.rfl

theorem draining_kept (hg : g.rolls) (hch : Change (rights cfg g) h w op w'.store) (m : String) :
    phaseAt w' m = some .draining ↔ phaseAt w m = some .draining := by
  rcases change_record hch .node m with
    hs | ⟨o, -, -, hr, -⟩ | ⟨cur, r, o, -, hl, hr, -, hp⟩ | ⟨cur, r, -, -, hr, -⟩
  · unfold phaseAt
    rw [hs]
  · cases (rolls_records hg (.inl hr)).2
  · rw [phaseAt_of_lookup hl, phaseAt_of_lookup hp, Option.some_inj, Option.some_inj]
    cases g with
    | workload order passes => exact hr.elim
    | scheduler => exact hr.elim
    | reportStatus p req => exact (reportNode_draining hr : Node.phase o = .draining ↔ _)
    | _ => cases hg
  · cases (rolls_records hg (.inr hr)).2

/- How the scheduler may write over a stored instance of the workload, and how an agent may. A put
at another revision than the stored one has no effect, and nothing is asked of it. -/
def WritesForward (ro : Rollout cfg.hasher) (g : Call) (w : World) (op : Op) : Prop :=
  ∀ o cur : Instance, op = .put .inst o cur.metadata.resourceVersion → Holds w.store .inst cur →
    cur.metadata.name = o.metadata.name → cur.spec.workload = ro.name →
    (g = .scheduler → o.spec.node ≠ "" ∧ o.spec.node ∉ ro.draining) ∧
    (∀ p req, g = .reportStatus p req → Forward cur.phase o.phase)

theorem moves_edit (h0 : "" ∉ ro.draining) {cur o : Instance} (he : InstEdit g h cur o)
    (hown : g.isWorkload = false) (hsched : g = .scheduler → o.spec.node ≠ "" ∧ o.spec.node ∉ ro.draining)
    (hrep : ∀ p req, g = .reportStatus p req → Forward cur.phase o.phase) : Moves ro.draining cur o := by
  cases he with
  | report p req hcall hedit => exact moves_reported hedit (hrep p req hcall)
  | retired order passes reason hcall => rw [hcall] at hown; cases hown
  | placed nodes node hcall hnode hlast hoff hnew =>
    subst hnew
    exact moves_bound h0 hnode (hsched hcall).1 (hsched hcall).2
  | refused pin hcall hnode hnew =>
    subst hnew
    exact absurd hnode (hsched hcall).1

theorem tally_others (h0 : "" ∉ ro.draining) (hg : g.rolls) (hown : g.isWorkload = false)
    (hch : Change (rights cfg g) h w op w'.store) (hf : WritesForward ro g w op) : StepTally ro 0 0 w w' := by
  have hnone : ∀ i ∈ (none : Option Instance), i.spec.workload ≠ ro.name := fun i hi => by cases hi
  rcases change_swap hch .inst with
    hs | ⟨o, -, hr, -⟩ | ⟨cur, o, hop, hn, hr, hs⟩ | ⟨cur, hr, -⟩
  · exact stepTally_swap hs (swapTally_other 0 0 hnone hnone)
  · exact absurd (rolls_records hg (.inl hr)).1 (Bool.eq_false_iff.mp hown)
  · refine stepTally_swap hs ?_
    have he := inst_edit (rolls_modelled g hg) hr
    by_cases hc : cur.spec.workload = ro.name
    · obtain ⟨hsched, hrep⟩ := hf o cur hop (hs.held cur rfl) hn hc
      exact swapTally_stamp (swapTally_moves (moves_edit h0 he hown hsched hrep) hc)
    · refine swapTally_other 0 0 ?_ ?_
      · rintro _ ⟨⟩
        exact hc
      · rintro _ ⟨⟩
        exact fun h => hc ((instEdit_workload he).symm.trans h)
  · exact absurd (rolls_records hg (.inr hr)).1 (Bool.eq_false_iff.mp hown)

end Records

end World

end Klite
