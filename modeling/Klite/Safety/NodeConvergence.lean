import Klite.Agent.LoopSpec

/-!
# What one pass makes of a node's containers

The runtime is a set of containers by id. Names are not unique in it, and no call of it
fails; the clock and the order of a listing are anybody's. A pass runs alone.
-/

namespace Klite.Agent
open Lib

structure Runtime where
  mem : Memory := {}
  boxes : Std.ExtTreeMap ℕ Box := ∅
  nextId : ℕ := 0
  fresh : ∀ (id : ℕ) (b : Box), boxes[id]? = some b → id < nextId

namespace Runtime
variable (e : Runtime)

def list : List RunningInstance := e.boxes.toList.map fun x => x.2.report x.1

def adjust (id : ℕ) (f : Box → Box) : Runtime where
  mem := e.mem
  boxes := e.boxes.map fun i b => if i = id then f b else b
  nextId := e.nextId
  fresh := by
    intro i b h
    rw [Std.ExtTreeMap.getElem?_map] at h
    obtain ⟨b₀, h₀, -⟩ := Option.map_eq_some_iff.mp h
    exact e.fresh i b₀ h₀

def keep (p : ℕ → Box → Bool) : Runtime where
  mem := e.mem
  boxes := e.boxes.filter p
  nextId := e.nextId
  fresh := by
    intro i b h
    rw [Table.get_filter] at h
    exact e.fresh i b (Option.filter_eq_some_iff.mp h).1

def create (inst : Instance) : Runtime where
  mem := e.mem
  boxes := e.boxes.insert e.nextId (boxOf inst)
  nextId := e.nextId + 1
  fresh := by
    intro i b h
    rw [Table.get_insert] at h
    split at h
    · omega
    · have hlt := e.fresh i b h
      omega

end Runtime

/- What a call leaves open: the clock, the address a container gets, the code it exits with and the
order of a listing. -/
structure Turnout where
  now : Int
  ip : String
  code : Int
  order : List RunningInstance → List RunningInstance
  lists : ∀ l, (order l).Perm l

def Runtime.exec (c : Turnout) : (op : Op) → Runtime → Res op × Runtime
  | .haveSnapshot, e => (e.mem.haveSnapshot, e)
  | .snapshotDesired, e => (e.mem.desired, e)
  | .rememberedGrace name, e => (e.mem.rememberedGrace name, e)
  | .forgetGrace name, e => ((), { e with mem := e.mem.forgetGrace name })
  | .stateFor inst, e => (e.mem.stateFor inst, e)
  | .putState name st, e => ((), { e with mem := e.mem.putState name st })
  | .pruneState desired, e => ((), { e with mem := e.mem.pruneState desired })
  | .probeReady name, e => (e.mem.probeReady.getD name false, e)
  | .now, e => (c.now, e)
  | .createOptions _, e => (.ok (), e)
  | .ensureImage _, e => (.ok (), e)
  | .containerList, e => (.ok (c.order e.list), e)
  | .containerStop id _, e => (.ok (), e.adjust id (Box.halt c.code))
  | .containerRemove id, e => (.ok (), e.keep fun i _ => i ≠ id)
  | .containerRemoveName name, e => (.ok (), e.keep fun _ b => b.name ≠ name)
  | .containerCreate inst, e => (.created e.nextId, e.create inst)
  | .containerStart id, e => (.ok (), e.adjust id (Box.start c.ip))
  | .inspectIP id, e => (((e.boxes[id]?).map Box.ip).getD "", e)

abbrev runtime : Machine Op Res where
  World := Runtime
  Choice := Turnout
  Move := Empty
  exec := Runtime.exec
  move := fun _ e => e

def Op.leaves (id : ℕ) (n : String) : Op → Bool
  | .containerStop i _ => i ≠ id
  | .containerRemove i => i ≠ id
  | .containerStart i => i ≠ id
  | .containerCreate inst => inst.metadata.name ≠ n
  | .containerRemoveName name => name ≠ n
  | _ => true

/- The instance's own gate read a time before the retry time it had when the pass over `e` began: a closed
gate puts the state back as it was found. A history has its last call first. -/
def HeldBack (e : Runtime) (inst : Instance) (h : Trace Runtime) : Prop :=
  ∃ t e₁ e₂ e₃ e₄, before t (e.mem.stateFor inst).nextTry = true ∧
    [(⟨.putState inst.metadata.name (kept inst (e.mem.stateFor inst)), (), e₁, e₂⟩ : Event Op Res Runtime),
      ⟨.now, t, e₃, e₄⟩] <:+: h

def seenDraining (m : Memory) (inst : Instance) : Bool := (kept inst (m.stateFor inst)).draining

def Untouched (id : ℕ) (n : String) (e e' : Runtime) (h : Trace Runtime) : Prop :=
  e'.boxes[id]? = e.boxes[id]? ∧ ∀ ev ∈ h, ev.op.leaves id n = true

/-- What a pass over `e` that was shown `actual` leaves. -/
structure Converged (actual : List RunningInstance) (e e' : Runtime) (h : Trace Runtime) : Prop where
  wanted : ∀ (id : ℕ) (b : Box), e'.boxes[id]? = some b →
    ∃ inst, e.mem.desired.map[b.name]? = some inst ∧ b.labels = (boxOf inst).labels
  single : ∀ (i j : ℕ) (b c : Box), e'.boxes[i]? = some b → e'.boxes[j]? = some c → b.name = c.name → i = j
  served : ∀ (n : String) (inst : Instance), e.mem.desired.map[n]? = some inst → seenDraining e.mem inst = false →
    (∃ (id : ℕ) (b : Box), e'.boxes[id]? = some b ∧ b.labels = (boxOf inst).labels) ∨ HeldBack e inst h
  running : ∀ (n : String) (ri : RunningInstance), actual.find? (agrees e.mem.desired n) = some ri → ri.running = true →
    Untouched ri.containerID n e e' h
  draining : ∀ (n : String) (inst : Instance) (ri : RunningInstance), e.mem.desired.map[n]? = some inst →
    seenDraining e.mem inst = true → actual.find? (agrees e.mem.desired n) = some ri → Untouched ri.containerID n e e' h

/-! ## Containers by name -/

variable {ri : RunningInstance} {inst : Instance} {ip : String}

namespace Runtime
variable {e e' : Runtime} {n : String} {id : ℕ} {b : Box}

def named (e : Runtime) (n : String) (id : ℕ) : Option Box := e.boxes[id]?.filter fun b => b.name = n

theorem named_some : e.named n id = some b ↔ e.boxes[id]? = some b ∧ b.name = n := by
  unfold named
  rw [Option.filter_eq_some_iff, decide_eq_true_eq]

theorem mem_list : ri ∈ e.list ↔ ∃ (id : ℕ) (b : Box), e.boxes[id]? = some b ∧ ri = b.report id :=
  Table.mem_map_toList _ _ _

theorem list_nodup (e : Runtime) : e.list.Nodup := by
  unfold list
  refine List.Nodup.map_on ?_ (Table.toList_nodup e.boxes)
  rintro ⟨i, b⟩ hi ⟨j, c⟩ hj he
  obtain rfl : i = j := congrArg RunningInstance.containerID he
  have hb := Table.mem_toList.mp hi
  have hc := Table.mem_toList.mp hj
  rw [Option.mem_unique hb hc]

theorem get_keep {p : ℕ → Box → Bool} : (e.keep p).boxes[id]? = some b ↔ e.boxes[id]? = some b ∧ p id b := by
  show (e.boxes.filter p)[id]? = some b ↔ _
  rw [Table.get_filter, Option.filter_eq_some_iff]

theorem get_adjust {j : ℕ} {f : Box → Box} : (e.adjust j f).boxes[id]? = e.boxes[id]?.map fun b => if id = j then f b else b := by
  show (e.boxes.map _)[id]? = _
  rw [Std.ExtTreeMap.getElem?_map]

theorem get_create : (e.create inst).boxes[id]? = if e.nextId = id then some (boxOf inst) else e.boxes[id]? := by
  show (e.boxes.insert e.nextId (boxOf inst))[id]? = _
  rw [Table.get_insert]

theorem get_run : ((e.create inst).adjust e.nextId (Box.start ip)).boxes[id]? =
    if e.nextId = id then some ((boxOf inst).start ip) else e.boxes[id]? := by
  rw [get_adjust, get_create]
  by_cases h : e.nextId = id
  · rw [if_pos h, if_pos h, Option.map_some, if_pos h.symm]
  · rw [if_neg h, if_neg h]
    cases e.boxes[id]? with
    | none => rfl
    | some b => rw [Option.map_some, if_neg (fun he => h he.symm)]

end Runtime

structure Framed (n : String) (e e' : Runtime) : Prop where
  named : ∀ m, m ≠ n → e'.named m = e.named m
  states : ∀ m, m ≠ n → e'.mem.states[m]? = e.mem.states[m]?
  nextId : e.nextId ≤ e'.nextId

/- The containers under the name are as they were in `e₀`, and the pass was shown them as `ri`. -/
def AsShown (e₀ : Runtime) (n : String) (ri : Option RunningInstance) (e : Runtime) : Prop :=
  ∀ (id : ℕ) (b : Box), e.named n id = some b ↔ e₀.boxes[id]? = some b ∧ ri = some (b.report id)

/- An instance the pass has done with. -/
structure Handled (e₀ : Runtime) (inst : Instance) (ri : Option RunningInstance) (h : Trace Runtime) (e : Runtime) : Prop where
  agrees : ∀ (id : ℕ) (b : Box), e.named inst.metadata.name id = some b → b.labels = (boxOf inst).labels
  single : ∀ (i j : ℕ) (b c : Box), e.named inst.metadata.name i = some b → e.named inst.metadata.name j = some c → i = j
  served : seenDraining e₀.mem inst = false → (∃ (id : ℕ) (b : Box), e.named inst.metadata.name id = some b) ∨ HeldBack e₀ inst h
  spared : ∀ r, ri = some r → r.running = true ∨ seenDraining e₀.mem inst = true →
    e.named inst.metadata.name r.containerID = e₀.boxes[r.containerID]?

section Handled
variable {e₀ e e' : Runtime} {inst : Instance} {ri : Option RunningInstance} {h h' : Trace Runtime} {n : String}

theorem framed_trans {e'' : Runtime} (a : Framed n e e') (b : Framed n e' e'') : Framed n e e'' where
  named := fun m hm => (b.named m hm).trans (a.named m hm)
  states := fun m hm => (b.states m hm).trans (a.states m hm)
  nextId := a.nextId.trans b.nextId

theorem framed_put (n : String) (st : InstState) (e : Runtime) : Framed n e { e with mem := e.mem.putState n st } := by
  refine ⟨fun _ _ => rfl, ?_, le_rfl⟩
  intro m hm
  show (e.mem.states.insert n st)[m]? = _
  rw [Table.get_insert, if_neg (fun he => hm he.symm)]

theorem framed_run : Framed inst.metadata.name e ((e.create inst).adjust e.nextId (Box.start ip)) := by
  refine ⟨?_, fun _ _ => rfl, Nat.le_succ _⟩
  intro m hm
  funext id
  unfold Runtime.named
  rw [Runtime.get_run]
  split
  · rename_i hid
    have hnone : e.boxes[id]? = none := by
      cases hb : e.boxes[id]? with
      | none => rfl
      | some b =>
        have hlt := e.fresh id b hb
        omega
    have hname : ((boxOf inst).start ip).name = inst.metadata.name := congrArg Prod.fst (start_labels ip (boxOf inst))
    rw [hnone, Option.filter_none, Option.filter_some, if_neg]
    rw [hname, decide_eq_true_eq]
    exact fun he => hm he.symm
  · rfl

theorem framed_remove {id : ℕ} (hid : ∀ b, e.boxes[id]? = some b → b.name = n) : Framed n e (e.keep fun i _ => i ≠ id) := by
  refine ⟨?_, fun _ _ => rfl, le_rfl⟩
  intro m hm
  funext i
  refine Option.ext fun b => ?_
  rw [Runtime.named_some, Runtime.named_some, Runtime.get_keep, decide_eq_true_eq]
  constructor
  · rintro ⟨⟨hb, -⟩, hn⟩
    exact ⟨hb, hn⟩
  · rintro ⟨hb, hn⟩
    refine ⟨⟨hb, ?_⟩, hn⟩
    rintro rfl
    exact hm (hn.symm.trans (hid b hb))

theorem heldBack_mono (hw : HeldBack e₀ inst h) (hs : h <:+ h') : HeldBack e₀ inst h' := by
  obtain ⟨t, e₁, e₂, e₃, e₄, hb, hm⟩ := hw
  exact ⟨t, e₁, e₂, e₃, e₄, hb, hm.trans hs.isInfix⟩

theorem handled_frame (hd : Handled e₀ inst ri h e) (hn : e'.named inst.metadata.name = e.named inst.metadata.name)
    (hh : h <:+ h') : Handled e₀ inst ri h' e' where
  agrees := hn ▸ hd.agrees
  single := hn ▸ hd.single
  served := by
    intro hx
    rw [hn]
    exact (hd.served hx).imp_right fun hw => heldBack_mono hw hh
  spared := hn ▸ hd.spared

structure Belongs (e₀ : Runtime) (inst : Instance) (ri : Option RunningInstance) : Prop where
  labels : ∀ r, ri = some r → r.labels = (boxOf inst).labels
  real : ∀ r, ri = some r → ∃ b, e₀.boxes[r.containerID]? = some b ∧ r = b.report r.containerID

theorem handled_shown (hb : Belongs e₀ inst ri) (ha : AsShown e₀ inst.metadata.name ri e)
    (hgate : ri = none → seenDraining e₀.mem inst = true) : Handled e₀ inst ri h e where
  agrees := by
    intro id b hn
    exact hb.labels _ ((ha id b).mp hn).2
  single := by
    intro i j b c hi hj
    have heq := ((ha i b).mp hi).2.symm.trans ((ha j c).mp hj).2
    exact congrArg RunningInstance.containerID (Option.some.inj heq)
  served := by
    intro hx
    cases hri : ri with
    | none =>
      rw [hgate hri] at hx
      cases hx
    | some r =>
      obtain ⟨b, hbox, hr⟩ := hb.real r hri
      exact Or.inl ⟨r.containerID, b, (ha _ b).mpr ⟨hbox, hri.trans (congrArg some hr)⟩⟩
  spared := by
    intro r hri _
    obtain ⟨b, hbox, hr⟩ := hb.real r hri
    rw [hbox]
    exact (ha _ b).mpr ⟨hbox, hri.trans (congrArg some hr)⟩

theorem not_protected {r : RunningInstance} {d : Bool} (h : r.running = false ∧ d = false) :
    ¬ (r.running = true ∨ d = true) := by
  rw [h.1, h.2]
  decide

section Handled
variable (hnone : ∀ id, e.named inst.metadata.name id = none)
  (hno : ∀ r, ri = some r → r.running = false ∧ seenDraining e₀.mem inst = false)
include hnone hno

theorem handled_run
    (hn : e'.named inst.metadata.name = ((e.create inst).adjust e.nextId (Box.start ip)).named inst.metadata.name) :
    Handled e₀ inst ri h e' := by
  have hlab : ((boxOf inst).start ip).labels = (boxOf inst).labels := start_labels ip _
  have hiff : ∀ (id : ℕ) (b : Box), e'.named inst.metadata.name id = some b ↔ id = e.nextId ∧ b = (boxOf inst).start ip := by
    intro id b
    rw [hn, Runtime.named_some, Runtime.get_run]
    split
    · rename_i hid
      constructor
      · rintro ⟨hb, -⟩
        exact ⟨hid.symm, (Option.some.inj hb).symm⟩
      · rintro ⟨-, rfl⟩
        exact ⟨rfl, congrArg Prod.fst hlab⟩
    · rename_i hid
      rw [← Runtime.named_some, hnone]
      constructor
      · rintro ⟨⟩
      · rintro ⟨rfl, -⟩
        exact absurd rfl hid
  refine ⟨?_, ?_, ?_, ?_⟩
  · intro id b hb
    rw [((hiff id b).mp hb).2]
    exact hlab
  · intro i j b c hi hj
    exact ((hiff i b).mp hi).1.trans ((hiff j c).mp hj).1.symm
  · exact fun _ => Or.inl ⟨e.nextId, _, (hiff _ _).mpr ⟨rfl, rfl⟩⟩
  · exact fun r hri hx => absurd hx (not_protected (hno r hri))

theorem handled_gated (hgate : HeldBack e₀ inst h) : Handled e₀ inst ri h e := by
  refine ⟨?_, ?_, fun _ => Or.inr hgate, ?_⟩
  · intro id b hb
    rw [hnone] at hb
    cases hb
  · intro i j b c hi
    rw [hnone] at hi
    cases hi
  · exact fun r hri hx => absurd hx (not_protected (hno r hri))

end Handled

end Handled

/-! ## The calls of a pass -/

variable {e' : Runtime}

section Ends
variable {α β : Type} {K : ℕ → String → Prop} {h : Hist runtime} {e : Runtime} {Q Q' : Hist runtime → Runtime → α → Prop}

def LeavesAlone (K : ℕ → String → Prop) (op : Op) : Prop := ∀ id n, K id n → op.leaves id n = true

abbrev Ends (K : ℕ → String → Prop) (Q : Hist runtime → Runtime → α → Prop) (p : Code α) (h : Hist runtime) (e : Runtime) : Prop :=
  Guards Eq (AnyEvent runtime) (fun _ _ op => LeavesAlone K op) Q p h e

theorem ends_call {op : Op} {k : Res op → Code α} (hs : LeavesAlone K op)
    (hk : ∀ c, Ends K Q (k (Runtime.exec c op e).1) (runtime.event c op e :: h) (Runtime.exec c op e).2) :
    Ends K Q (call op >>= k) h e := by
  rintro _ rfl
  exact ⟨hs, fun c _ => hk c⟩

theorem ends_mono {p : Code α} (hp : Ends K Q p h e) (hq : ∀ h' e' a, Q h' e' a → Q' h' e' a) : Ends K Q' p h e :=
  guards_mono hq p h e hp

theorem ends_bind {P : Hist runtime → Runtime → β → Prop} {p : Code β} {f : β → Code α} (hp : Ends K P p h e)
    (hf : ∀ h' e' b, P h' e' b → Ends K Q (f b) h' e') : Ends K Q (p >>= f) h e :=
  guards_bind hp hf

theorem ends_runningPhase (inst : Instance) : Ends K (fun _ e' _ => e' = e) (runningPhase inst) h e := by
  unfold runningPhase
  split
  · exact rfl
  · refine ends_call (fun _ _ _ => rfl) ?_
    intro c
    show Ends K _ (if e.mem.probeReady.getD inst.metadata.name false then pure InstancePhase.ready else pure InstancePhase.running) _ e
    split
    · exact rfl
    · exact rfl

theorem ends_runInstance (node : String) (inst : Instance) (hfree : ∀ id, ¬ K id inst.metadata.name)
    (hnew : ∀ id n, K id n → id < e.nextId) :
    Ends K (fun _ e' r => ∃ ip, r = .ok e.nextId ∧ e' = (e.create inst).adjust e.nextId (Box.start ip))
      (runInstance node inst) h e := by
  unfold runInstance
  refine ends_call (fun _ _ _ => rfl) ?_
  intro c
  show Ends K _ (createAndStart node inst) _ e
  unfold createAndStart
  have hcreate : LeavesAlone K (.containerCreate inst) := by
    intro id n hk
    have hne : inst.metadata.name ≠ n := by
      rintro rfl
      exact hfree id hk
    exact decide_eq_true hne
  have hstart : LeavesAlone K (.containerStart e.nextId) := by
    intro id n hk
    have hlt := hnew id n hk
    exact decide_eq_true (show e.nextId ≠ id by omega)
  refine ends_call hcreate ?_
  intro c
  refine ends_call hstart ?_
  intro c
  exact ⟨c.ip, rfl, rfl⟩

def Settles (e₀ : Runtime) (inst : Instance) (ri : Option RunningInstance) (e : Runtime) :
    Hist runtime → Runtime → Except String Unit → Prop :=
  fun h' e' a => a = .ok () ∧ Framed inst.metadata.name e e' ∧ Handled e₀ inst ri h' e'

theorem ends_startInstance {e₀ : Runtime} {node : String} {ri : Option RunningInstance} {st : InstState}
    (hnone : ∀ id, e.named inst.metadata.name id = none)
    (hno : ∀ r, ri = some r → r.running = false ∧ seenDraining e₀.mem inst = false)
    (hst : st = kept inst (e₀.mem.stateFor inst)) (hfree : ∀ id, ¬ K id inst.metadata.name)
    (hnew : ∀ id n, K id n → id < e.nextId) : Ends K (Settles e₀ inst ri e) (startInstance node inst st) h e := by
  unfold startInstance
  refine ends_call (fun _ _ _ => rfl) ?_
  intro c
  show Ends K _ (if before c.now st.nextTry then _ else _) _ e
  split
  · rename_i hb
    refine ends_call (fun _ _ _ => rfl) ?_
    intro c'
    refine ⟨rfl, framed_put _ st e, handled_gated hnone hno ?_⟩
    subst hst
    exact ⟨c.now, e, _, e, e, hb, (List.prefix_append [_, _] h).isInfix⟩
  · refine ends_call (fun _ _ _ => rfl) ?_
    intro c'
    refine ends_bind (ends_runInstance node inst hfree hnew) ?_
    rintro h₁ e₁ r ⟨ip, rfl, rfl⟩
    refine ends_bind (ends_runningPhase inst) ?_
    rintro h₂ e₂ phase rfl
    refine ends_call (fun _ _ _ => rfl) ?_
    intro c₂
    refine ends_call (fun _ _ _ => rfl) ?_
    intro c₃
    exact ⟨rfl, framed_trans framed_run (framed_put _ _ _), handled_run hnone hno rfl⟩

section Instance
variable {e₀ : Runtime} {node : String} {inst : Instance} {ri : RunningInstance} {st : InstState}

theorem ends_put {r : Option RunningInstance} (hb : Belongs e₀ inst r) (ha : AsShown e₀ inst.metadata.name r e)
    (hgate : r = none → seenDraining e₀.mem inst = true) : Ends K (Settles e₀ inst r e)
      (call (.putState inst.metadata.name st) >>= fun _ => pure (.ok ())) h e := by
  refine ends_call (fun _ _ _ => rfl) ?_
  intro c
  exact ⟨rfl, framed_put _ st e, handled_shown hb ha hgate⟩

theorem ends_restartInstance (hb : Belongs e₀ inst (some ri)) (ha : AsShown e₀ inst.metadata.name (some ri) e)
    (hno : ri.running = false ∧ seenDraining e₀.mem inst = false)
    (hst : st = kept inst (e₀.mem.stateFor inst)) (hfree : ∀ id, ¬ K id inst.metadata.name)
    (hnew : ∀ id n, K id n → id < e.nextId) (hrem : LeavesAlone K (.containerRemove ri.containerID)) :
    Ends K (Settles e₀ inst (some ri) e) (restartInstance node inst ri st) h e := by
  unfold restartInstance
  split
  · refine ends_call (fun _ _ _ => rfl) ?_
    intro c
    exact ends_put hb ha nofun
  · refine ends_call (fun _ _ _ => rfl) ?_
    intro c
    show Ends K _ (if before c.now st.nextTry then _ else _) _ e
    split
    · exact ends_put hb ha nofun
    · unfold removeInstance
      refine ends_call hrem ?_
      intro c'
      obtain ⟨b, hbox, hr⟩ := hb.real ri rfl
      have hmine := Runtime.named_some.mp ((ha _ b).mpr ⟨hbox, congrArg some hr⟩)
      have hframe : Framed inst.metadata.name e (e.keep fun i _ => i ≠ ri.containerID) := by
        refine framed_remove ?_
        intro b' hb'
        obtain rfl := Option.mem_unique hmine.1 hb'
        exact hmine.2
      have hnone : ∀ id, (e.keep fun i _ => i ≠ ri.containerID).named inst.metadata.name id = none := by
        intro id
        refine Option.eq_none_iff_forall_not_mem.mpr ?_
        intro b' hb'
        obtain ⟨hkeep, hn⟩ := Runtime.named_some.mp hb'
        obtain ⟨hb', hne⟩ := Runtime.get_keep.mp hkeep
        have hri := ((ha id b').mp (Runtime.named_some.mpr ⟨hb', hn⟩)).2
        exact of_decide_eq_true hne (congrArg RunningInstance.containerID (Option.some.inj hri)).symm
      have hno' : ∀ r, some ri = some r → r.running = false ∧ seenDraining e₀.mem inst = false := by
        rintro r ⟨⟩
        exact hno
      refine ends_mono (ends_startInstance hnone hno' hst hfree hnew) ?_
      rintro h' e' a ⟨rfl, hf, hh⟩
      exact ⟨rfl, framed_trans hframe hf, hh⟩

theorem ends_reconcileInstance {r : Option RunningInstance} (hb : Belongs e₀ inst r)
    (ha : AsShown e₀ inst.metadata.name r e)
    (hst : e.mem.states[inst.metadata.name]? = e₀.mem.states[inst.metadata.name]?)
    (hfree : (∀ ri, r = some ri → ri.running = false ∧ seenDraining e₀.mem inst = false) → ∀ id, ¬ K id inst.metadata.name)
    (hnew : ∀ id n, K id n → id < e.nextId)
    (hrem : ∀ ri, r = some ri → ri.running = false → seenDraining e₀.mem inst = false →
      LeavesAlone K (.containerRemove ri.containerID)) : Ends K (Settles e₀ inst r e)
      (reconcileInstance node inst r) h e := by
  unfold reconcileInstance
  refine ends_call (fun _ _ _ => rfl) ?_
  intro c
  have hsame : e.mem.stateFor inst = e₀.mem.stateFor inst := by
    unfold Memory.stateFor
    rw [hst]
  have hseen : (kept inst (e.mem.stateFor inst)).draining = seenDraining e₀.mem inst := by
    rw [hsame]
    rfl
  show Ends K _ (if (kept inst (e.mem.stateFor inst)).draining then observeDraining inst r _ else _) _ e
  split
  · rename_i hd
    exact ends_put hb ha fun _ => hseen.symm.trans hd
  · rename_i hd
    have hd : seenDraining e₀.mem inst = false := hseen.symm.trans (Bool.eq_false_iff.mpr hd)
    have hkept := congrArg (kept inst) hsame
    cases r with
    | none =>
      have hnone : ∀ id, e.named inst.metadata.name id = none := by
        intro id
        refine Option.eq_none_iff_forall_not_mem.mpr ?_
        intro b hbox
        cases ((ha id b).mp hbox).2
      exact ends_startInstance hnone nofun hkept (hfree nofun) hnew
    | some ri =>
      dsimp only
      split
      · refine ends_bind (ends_runningPhase inst) ?_
        rintro h₁ e₁ phase rfl
        exact ends_put hb ha nofun
      · rename_i hr
        have hno : ri.running = false ∧ seenDraining e₀.mem inst = false := ⟨Bool.eq_false_iff.mpr hr, hd⟩
        refine ends_restartInstance hb ha hno hkept (hfree ?_) hnew (hrem ri rfl hno.1 hd)
        rintro r ⟨⟩
        exact hno

end Instance

/-! ## Orphans -/

structure Removed (id : ℕ) (e e' : Runtime) : Prop where
  gone : e'.boxes[id]? = none
  others : ∀ i, i ≠ id → e'.boxes[i]? = e.boxes[i]?
  states : e'.mem.states = e.mem.states
  nextId : e'.nextId = e.nextId

theorem removed_keep {id : ℕ} (ho : ∀ i, i ≠ id → e'.boxes[i]? = e.boxes[i]?) (hs : e'.mem.states = e.mem.states)
    (hn : e'.nextId = e.nextId) (name : String) :
    Removed id e { e'.keep (fun i _ => i ≠ id) with mem := e'.mem.forgetGrace name } := by
  refine ⟨?_, ?_, (forgetGrace_keeps e'.mem name).2.1.trans hs, hn⟩
  · refine Option.eq_none_iff_forall_not_mem.mpr ?_
    intro b hb
    exact of_decide_eq_true (Runtime.get_keep.mp hb).2 rfl
  · intro i hi
    rw [← ho i hi]
    refine Option.ext fun b => ?_
    refine Runtime.get_keep.trans ?_
    rw [decide_eq_true_eq]
    exact ⟨fun h => h.1, fun h => ⟨h, hi⟩⟩

theorem ends_removeOrphan (hs : ∀ id n, K id n → ri.containerID ≠ id) :
    Ends K (fun _ e' a => a = .ok () ∧ Removed ri.containerID e e') (removeOrphan ri) h e := by
  have hspare : ∀ id n, K id n → decide (ri.containerID ≠ id) = true := fun id n hk => decide_eq_true (hs id n hk)
  unfold removeOrphan stopOrphan
  split
  · refine ends_call (fun _ _ _ => rfl) ?_
    intro c
    refine ends_call hspare ?_
    intro c₁
    refine ends_call hspare ?_
    intro c₂
    refine ends_call (fun _ _ _ => rfl) ?_
    intro c₃
    have hothers : ∀ i, i ≠ ri.containerID → (e.adjust ri.containerID (Box.halt c₁.code)).boxes[i]? = e.boxes[i]? := by
      intro i hi
      rw [Runtime.get_adjust]
      cases e.boxes[i]? with
      | none => rfl
      | some b => rw [Option.map_some, if_neg hi]
    exact ⟨rfl, removed_keep hothers rfl rfl ri.instanceName⟩
  · refine ends_call hspare ?_
    intro c₂
    refine ends_call (fun _ _ _ => rfl) ?_
    intro c₃
    exact ⟨rfl, removed_keep (fun _ _ => rfl) rfl rfl ri.instanceName⟩

/- The orphans of `all` that are not in `rest` have been removed. -/
structure Cleared (all rest : List RunningInstance) (e₀ e : Runtime) : Prop where
  kept : ∀ id, (∀ ri ∈ all, ri.containerID ≠ id) → e.boxes[id]? = e₀.boxes[id]?
  left : ∀ (id : ℕ) (b : Box), e.boxes[id]? = some b → (∃ ri ∈ rest, ri.containerID = id) ∨ ∀ ri ∈ all, ri.containerID ≠ id
  states : e.mem.states = e₀.mem.states
  nextId : e.nextId = e₀.nextId

theorem ends_removeOrphans {all : List RunningInstance} (hs : ∀ ri ∈ all, ∀ id n, K id n → ri.containerID ≠ id) :
    Ends K (fun _ e' errs => errs = [] ∧ Cleared all [] e e') (removeOrphans all) h e := by
  unfold removeOrphans
  refine ends_mono (guards_foldlM _
    (fun rest _ e' errs => errs = [] ∧ (∀ ri ∈ rest, ri ∈ all) ∧ Cleared all rest e e') ?_ all [] h e ?_)
    fun _ _ _ hx => ⟨hx.1, hx.2.2⟩
  · rintro ri rest h₁ e₁ errs ⟨rfl, hsub, hc⟩
    have hmem : ri ∈ all := hsub ri List.mem_cons_self
    refine ends_bind (ends_removeOrphan (hs ri hmem)) ?_
    rintro h₂ e₂ a ⟨rfl, hr⟩
    refine ⟨rfl, fun r hr => hsub r (List.mem_cons_of_mem ri hr), ?_, ?_, hr.states.trans hc.states, hr.nextId.trans hc.nextId⟩
    · intro id hid
      rw [hr.others id (fun he => hid ri hmem he.symm)]
      exact hc.kept id hid
    · intro id b hb
      have hne : id ≠ ri.containerID := by
        rintro rfl
        rw [hr.gone] at hb
        cases hb
      rw [hr.others id hne] at hb
      refine (hc.left id b hb).imp_left ?_
      rintro ⟨r, hr, rfl⟩
      rcases List.mem_cons.mp hr with rfl | hr
      · exact absurd rfl hne
      · exact ⟨r, hr, rfl⟩
  · refine ⟨rfl, fun _ hr => hr, fun _ _ => rfl, ?_, rfl, rfl⟩
    intro id b _
    by_cases hx : ∃ ri ∈ all, ri.containerID = id
    · exact Or.inl hx
    · exact Or.inr fun ri hri he => hx ⟨ri, hri, he⟩

end Ends

/-! ## The pass -/

section Pass
variable {node : String} {e₀ e : Runtime} {D : Desired} {l : List RunningInstance} {h : Hist runtime} {n : String} {id : ℕ}

section Shown
variable (hl : l.Perm e₀.list)
include hl

theorem listed_real (hr : ri ∈ l) : ∃ b, e₀.boxes[ri.containerID]? = some b ∧ ri = b.report ri.containerID := by
  obtain ⟨id, b, hb, rfl⟩ := Runtime.mem_list.mp (hl.mem_iff.mp hr)
  exact ⟨b, hb, rfl⟩

theorem listed_inj {r s : RunningInstance} (hr : r ∈ l) (hs : s ∈ l) (he : r.containerID = s.containerID) : r = s := by
  obtain ⟨b, hb, hrb⟩ := listed_real hl hr
  obtain ⟨c, hc, hsc⟩ := listed_real hl hs
  rw [he] at hb hrb
  obtain rfl := Option.mem_unique hb hc
  exact hrb.trans hsc.symm

def Protected (e₀ : Runtime) (D : Desired) (l : List RunningInstance) (id : ℕ) (n : String) : Prop :=
  ∃ ri inst, (matchContainers D l).1[n]? = some ri ∧ ri.containerID = id ∧ D.map[n]? = some inst ∧
    (ri.running = true ∨ seenDraining e₀.mem inst = true)

theorem belongs_match (hi : D.map[n]? = some inst) :
    Belongs e₀ inst (matchContainers D l).1[n]? :=
  ⟨fun _ hr => byName_labels hi hr, fun _ hr => listed_real hl (byName_some hr).1⟩

theorem matched_apart {ri r : RunningInstance} (ho : ri ∈ (matchContainers D l).2)
    (hr : (matchContainers D l).1[n]? = some r) : ri.containerID ≠ r.containerID := by
  intro he
  have hs := sorted_match D l
  obtain ⟨hmem, hn, -⟩ := hs.named n r hr
  obtain rfl := listed_inj hl (hs.orphan ri ho) hmem he
  refine hs.apart (hl.nodup_iff.mpr e₀.list_nodup) ri ho ?_
  rw [hn]
  exact hr

theorem asShown_cleared (hc : Cleared (matchContainers D l).2 [] e₀ e) (n : String) :
    AsShown e₀ n (matchContainers D l).1[n]? e := by
  intro id b
  constructor
  · intro hx
    obtain ⟨hb, rfl⟩ := Runtime.named_some.mp hx
    have hleft := (hc.left id b hb).resolve_left (by rintro ⟨r, hr, -⟩; cases hr)
    have hb₀ : e₀.boxes[id]? = some b := (hc.kept id hleft).symm.trans hb
    have hmem : b.report id ∈ l := hl.mem_iff.mpr (Runtime.mem_list.mpr ⟨id, b, hb₀, rfl⟩)
    exact ⟨hb₀, ((sorted_match D l).total _ hmem).resolve_right fun ho => hleft _ ho rfl⟩
  · rintro ⟨hb, hr⟩
    refine Runtime.named_some.mpr ⟨?_, (byName_some hr).2.1⟩
    rw [hc.kept id fun ri ho => matched_apart hl ho hr]
    exact hb

structure StillToCome (e₀ : Runtime) (D : Desired) (l : List RunningInstance) (rest : List String) (h : Hist runtime) (e : Runtime) :
    Prop where
  nodup : rest.Nodup
  nextId : e₀.nextId ≤ e.nextId
  ahead : ∀ n, n ∈ rest ∨ D.map[n]? = none →
    AsShown e₀ n (matchContainers D l).1[n]? e ∧ e.mem.states[n]? = e₀.mem.states[n]?
  done : ∀ n inst, D.map[n]? = some inst → n ∉ rest → Handled e₀ inst (matchContainers D l).1[n]? h e

theorem protected_remove (hi : D.map[n]? = some inst) (hr : (matchContainers D l).1[n]? = some ri)
    (hno : ri.running = false ∧ seenDraining e₀.mem inst = false) :
    LeavesAlone (Protected e₀ D l) (.containerRemove ri.containerID) := by
  rintro id m ⟨r, inst', hr', rfl, hi', hp⟩
  refine decide_eq_true ?_
  intro he
  obtain rfl := listed_inj hl (byName_some hr).1 (byName_some hr').1 he
  obtain rfl := (byName_some hr).2.1.symm.trans (byName_some hr').2.1
  obtain rfl := Option.mem_unique hi hi'
  exact not_protected hno hp

theorem ends_reconcileNamed {rest : List String} {name : String} (hw : StillToCome e₀ D l (name :: rest) h e) :
    Ends (Protected e₀ D l) (fun h' e' errs => errs = [] ∧ StillToCome e₀ D l rest h' e')
      (reconcileNamed node D (matchContainers D l).1 [] name) h e := by
  obtain ⟨hnot, hrest⟩ := List.nodup_cons.mp hw.nodup
  unfold reconcileNamed
  cases hi : D.map[name]? with
  | none =>
    refine ⟨rfl, hrest, hw.nextId, fun n hn => hw.ahead n (hn.imp_left (List.mem_cons_of_mem name)), ?_⟩
    intro n inst hin hn
    refine hw.done n inst hin ?_
    intro hmem
    rcases List.mem_cons.mp hmem with rfl | hmem
    · rw [hi] at hin
      cases hin
    · exact hn hmem
  | some inst =>
    obtain rfl := D.keyed name inst hi
    obtain ⟨ha, hst⟩ := hw.ahead _ (Or.inl List.mem_cons_self)
    have hfree : (∀ ri, (matchContainers D l).1[inst.metadata.name]? = some ri →
        ri.running = false ∧ seenDraining e₀.mem inst = false) → ∀ id, ¬ Protected e₀ D l id inst.metadata.name := by
      rintro hno id ⟨ri, inst', hr, -, hi', hp⟩
      obtain rfl := Option.mem_unique hi hi'
      exact not_protected (hno ri hr) hp
    have hnew : ∀ id n, Protected e₀ D l id n → id < e.nextId := by
      rintro id n ⟨ri, inst', hr, rfl, -, -⟩
      obtain ⟨b, hb, -⟩ := listed_real hl (byName_some hr).1
      exact (e₀.fresh _ b hb).trans_le hw.nextId
    refine ends_bind (guards_suffix _ _ _ (ends_reconcileInstance (belongs_match hl hi) ha hst hfree hnew
      fun ri hr hoff hd => protected_remove hl hi hr ⟨hoff, hd⟩)) ?_
    rintro h' e' a ⟨hsuf, rfl, hf, hd⟩
    refine ⟨rfl, hrest, hw.nextId.trans hf.nextId, ?_, ?_⟩
    · intro n hn
      have hne : n ≠ inst.metadata.name := by
        rintro rfl
        rcases hn with hn | hn
        · exact hnot hn
        · rw [hi] at hn
          cases hn
      obtain ⟨ha', hst'⟩ := hw.ahead n (hn.imp_left (List.mem_cons_of_mem _))
      refine ⟨?_, (hf.states n hne).trans hst'⟩
      unfold AsShown
      rw [hf.named n hne]
      exact ha'
    · intro n inst' hi' hn
      by_cases hne : n = inst.metadata.name
      · subst hne
        obtain rfl := Option.mem_unique hi hi'
        exact hd
      · obtain rfl := D.keyed n inst' hi'
        refine handled_frame (hw.done _ inst' hi' ?_) (hf.named _ hne) hsuf
        exact fun hmem => (List.mem_cons.mp hmem).elim hne hn

end Shown

def afterList (node : String) (p : Pass) (D : Desired) (actual : List RunningInstance) :
    Code (Except String (List String)) := do
  let m := matchContainers D actual
  let errs ← removeOrphans m.2
  let errs ← (p.order D.map.keys).foldlM (reconcileNamed node D m.1) errs
  call (.pruneState D)
  pure (.ok errs)

theorem ends_afterList (node : String) (hl : l.Perm e₀.list) (p : Pass) :
    Ends (Protected e₀ D l) (fun h' e' r => r = .ok [] ∧ (∀ n : String, D.map[n]? = none → ∀ id, e'.named n id = none) ∧
      ∀ (n : String) (inst : Instance), D.map[n]? = some inst →
        Handled e₀ inst (matchContainers D l).1[n]? h' e') (afterList node p D l) h e₀ := by
  have hspare : ∀ ri ∈ (matchContainers D l).2, ∀ id n, Protected e₀ D l id n → ri.containerID ≠ id := by
    rintro ri ho id n ⟨r, inst, hr, rfl, -⟩
    exact matched_apart hl ho hr
  unfold afterList
  refine ends_bind (ends_removeOrphans hspare) ?_
  rintro h₁ e₁ errs ⟨rfl, hc⟩
  have hwalk : StillToCome e₀ D l (p.order D.map.keys) h₁ e₁ := by
    refine ⟨(p.walks _).nodup_iff.mpr Std.ExtTreeMap.nodup_keys, hc.nextId.ge, ?_, ?_⟩
    · exact fun n _ => ⟨asShown_cleared hl hc n, by rw [hc.states]⟩
    · intro n inst hi hn
      refine absurd ((p.walks _).mem_iff.mpr (Std.ExtTreeMap.mem_keys.mpr ?_)) hn
      exact Std.ExtTreeMap.mem_iff_isSome_getElem?.mpr (by rw [hi]; rfl)
  refine ends_bind (guards_foldlM _ (fun rest h' e' errs => errs = [] ∧ StillToCome e₀ D l rest h' e') ?_ _ _ _ _ ⟨rfl, hwalk⟩) ?_
  · rintro name rest h₂ e₂ errs ⟨rfl, hw⟩
    exact ends_reconcileNamed hl hw
  · rintro h₂ e₂ errs ⟨rfl, hw⟩
    refine ends_call (fun _ _ _ => rfl) ?_
    intro c
    refine ⟨rfl, ?_, ?_⟩
    · intro n hn id
      refine Option.eq_none_iff_forall_not_mem.mpr ?_
      intro b hb
      obtain ⟨-, hname, inst, hi, -⟩ := byName_some (((hw.ahead n (Or.inr hn)).1 id b).mp hb).2
      have hi : D.map[(b.report id).instanceName]? = some inst := hi
      rw [hname, hn] at hi
      cases hi
    · intro n inst hi
      exact handled_frame (hw.done n inst hi List.not_mem_nil) rfl (List.suffix_cons _ _)

theorem untouched_of_spared (hl : l.Perm e₀.list) (hd : Handled e₀ inst (matchContainers D l).1[n]? h e')
    (hcalls : ∀ ev ∈ h, LeavesAlone (Protected e₀ D l) ev.op) (hi : D.map[n]? = some inst)
    (hr : (matchContainers D l).1[n]? = some ri) (hp : ri.running = true ∨ seenDraining e₀.mem inst = true) :
    Untouched ri.containerID n e₀ e' h := by
  refine ⟨?_, fun ev hev => hcalls ev hev _ _ ⟨ri, inst, hr, rfl, hi, hp⟩⟩
  obtain ⟨b, hb, -⟩ := listed_real hl (byName_some hr).1
  have hn := hd.spared ri hr hp
  rw [hb] at hn ⊢
  exact (Runtime.named_some.mp hn).1

theorem converged_of_handled (hl : l.Perm e₀.list)
    (hnone : ∀ n : String, e₀.mem.desired.map[n]? = none → ∀ id, e'.named n id = none)
    (hdone : ∀ (n : String) (inst : Instance), e₀.mem.desired.map[n]? = some inst →
      Handled e₀ inst (matchContainers e₀.mem.desired l).1[n]? h e')
    (hcalls : ∀ ev ∈ h, LeavesAlone (Protected e₀ e₀.mem.desired l) ev.op) : Converged l e₀ e' h := by
  have hknown : ∀ (id : ℕ) (b : Box), e'.boxes[id]? = some b → ∃ inst, e₀.mem.desired.map[b.name]? = some inst ∧
      inst.metadata.name = b.name ∧ e'.named inst.metadata.name id = some b := by
    intro id b hb
    have hn := Runtime.named_some.mpr ⟨hb, rfl⟩
    cases hi : e₀.mem.desired.map[b.name]? with
    | none =>
      rw [hnone b.name hi] at hn
      cases hn
    | some inst =>
      have hname := e₀.mem.desired.keyed _ _ hi
      exact ⟨inst, rfl, hname, hname ▸ hn⟩
  refine ⟨?_, ?_, ?_, ?_, ?_⟩
  · intro id b hb
    obtain ⟨inst, hi, -, hn⟩ := hknown id b hb
    exact ⟨inst, hi, (hdone _ inst hi).agrees id b hn⟩
  · intro i j b c hb hc heq
    obtain ⟨inst, hi, hname, hn⟩ := hknown i b hb
    exact (hdone _ inst hi).single i j b c hn (Runtime.named_some.mpr ⟨hc, heq.symm.trans hname.symm⟩)
  · intro n inst hi hx
    have hd := hdone n inst hi
    obtain rfl := e₀.mem.desired.keyed n inst hi
    refine (hd.served hx).imp_left ?_
    rintro ⟨id, b, hn⟩
    exact ⟨id, b, (Runtime.named_some.mp hn).1, hd.agrees id b hn⟩
  · intro n ri hr hrun
    rw [← byName_first] at hr
    obtain ⟨-, rfl, inst, hi, -⟩ := byName_some hr
    exact untouched_of_spared hl (hdone _ inst hi) hcalls hi hr (Or.inl hrun)
  · intro n inst ri hi hx hr
    rw [← byName_first] at hr
    exact untouched_of_spared hl (hdone n inst hi) hcalls hi hr (Or.inr hx)

end Pass

/-- One pass in which no call fails, over any desired map, containers, states and clock: what is
left agrees with a desired instance, one container an instance; every instance that is not draining
has its container or was, by its own gate, still before the retry time it had when the pass began;
and a matched container that is running, or whose instance has been seen DRAINING, is left alone.
The second call of a pass is the listing. -/
theorem pass_converges (node : String) (p : Pass) (cs : ℕ → Turnout) (e : Runtime) :
    ∃ h e', (reconcile node p).trace runtime cs [] e = (some (.ok []), h, e') ∧
      Converged ((cs 1).order e.list) e e' h := by
  have hl := (cs 1).lists e.list
  let h₀ : Hist runtime := [runtime.event (cs 1) .containerList e, runtime.event (cs 0) .snapshotDesired e]
  have hrun : (reconcile node p).trace runtime cs [] e =
      (afterList node p e.mem.desired ((cs 1).order e.list)).trace runtime (fun i => cs (i + 1 + 1)) h₀ e := rfl
  have hends : Ends (Protected e e.mem.desired ((cs 1).order e.list)) _ _ h₀ e := ends_afterList node hl p
  obtain ⟨⟨r, hr, rfl, hnone, hdone⟩, hcalls⟩ := guards_trace _ (fun i => cs (i + 1 + 1)) _ _ hends fun _ _ => trivial
  refine ⟨_, _, hrun.trans (Prod.ext hr rfl), converged_of_handled hl hnone hdone ?_⟩
  intro ev hev
  rcases hcalls ev hev with hev | ⟨-, hs⟩
  · rcases List.mem_cons.mp hev with rfl | hev
    · exact fun _ _ _ => rfl
    · obtain rfl := List.mem_singleton.mp hev
      exact fun _ _ _ => rfl
  · exact hs

end Klite.Agent
