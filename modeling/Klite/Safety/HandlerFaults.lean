import Klite.System

/-!
# Which agent messages can crash the server

Register and ReportStatus read the messages of a request through nil-safe getters.
Two places assign through a message that may be absent: the yield of a node index and
the phase of a reported status (agent.go:213, 430).
-/

namespace Klite
open Lib

abbrev Survives {α : Type} (A : Op → World → Prop) (p : Code α) : Prop := Returns klited A (fun _ => True) p

section Handlers
variable {A : Op → World → Prop}

theorem returns_judgeYield {idx : Int} (hidx : idx ≠ 0) (node : Node) : Survives A (judgeYield idx node) := by
  unfold judgeYield
  split
  · trivial
  · rename_i hi
    split
    · rename_i hs
      have h0 : node.index = 0 := by simp [Node.index, Node.getStatus, hs]
      exact absurd ((not_not.mp hi).symm.trans h0) hidx
    · trivial

theorem returns_get {α : Type} {k : Kind} {n : String} {Q : α → Prop}
    {f : Except StoreErr (k.Obj × Int) → Code α} (herr : ∀ e, Returns klited A Q (f (.error e)))
    (hok : ∀ w o r, A (.get k n) w → w.store.lookup k n = some (o, r) →
      Returns klited A Q (f (.ok (o, r)))) : Returns klited A Q (get k n >>= f) := by
  apply returns_call
  intro c w ha
  change Returns klited A Q (f (exec c (.get k n) w).1)
  cases hr : (exec c (.get k n) w).1 with
  | error e => exact herr e
  | ok x => exact hok w x.1 x.2 ha (exec_get_ok hr)

theorem returns_casLoop {α : Type} {k : Kind} {name : String} {judge : k.Obj → Code (Verdict k α)}
    {failed : StoreErr → α} {raced : α} (n : ℕ) (hj : ∀ w o r, A (.get k name) w → w.store.lookup k name = some (o, r) →
      Survives A (judge o)) : Survives A (casLoop k name judge failed raced n) := by
  induction n with
  | zero => trivial
  | succ n ih =>
    apply returns_get
    · intro e
      trivial
    · intro w o r ha hl
      apply returns_bind (hj w o r ha hl)
      intro v _
      cases v with
      | done a => trivial
      | write o' a =>
        apply returns_call
        intro c' w' _
        dsimp only
        split
        · trivial
        · split
          · exact ih
          · trivial

theorem returns_indexHolder (name : String) (idx : Int) : Survives A (indexHolder name idx) := by
  apply returns_call
  intro c w _
  dsimp only
  split <;> trivial

theorem returns_yieldIndexCollision {idx : Int} (hidx : idx ≠ 0) (name : String) :
    Survives A (yieldIndexCollision name idx) := by
  apply returns_bind (returns_indexHolder name idx)
  intro r _
  cases r with
  | error e => trivial
  | ok holder =>
    change Returns klited A _ (backOff name idx holder)
    unfold backOff
    split
    · trivial
    · exact returns_casLoop casRetries fun _ node _ _ _ => returns_judgeYield hidx node

theorem returns_assignIndex (node : Node) :
    Returns klited A (fun r => ∀ idx, r = .ok idx → idx ≠ 0) (assignIndex node) := by
  unfold assignIndex
  split
  · apply returns_call
    intro c w _
    dsimp only
    split
    · nofun
    · rename_i nodes _ _
      intro idx hi
      have hge := freeFrom_ge (nodes.map Node.index) (nodes.map Node.index).length 1
      have he := Except.ok.inj hi
      omega
  · rename_i hne
    intro idx hi
    have he := Except.ok.inj hi
    omega

theorem returns_registerLoop (name addr : String) (n : ℕ) : Survives A (registerLoop name addr n) := by
  induction n with
  | zero => trivial
  | succ n ih =>
    apply returns_call
    intro c w _
    dsimp only
    split
    · split <;> trivial
    · apply returns_bind (returns_assignIndex _)
      intro r hr
      cases r with
      | error e => trivial
      | ok idx =>
        have hidx := hr idx rfl
        apply returns_call
        intro c₁ w₁ _
        apply returns_call
        intro c₂ w₂ _
        dsimp only
        split
        · split
          · exact ih
          · trivial
        · apply returns_bind (P := fun _ => True)
          · unfold checkCollision
            split
            · exact returns_yieldIndexCollision hidx name
            · trivial
          · intro b _
            match b with
            | .error e => trivial
            | .ok true => exact ih
            | .ok false => trivial

theorem returns_register (cfg : AgentConfig) (p : Principal) (req : RegisterRequest) :
    Survives A (register cfg p req) := by
  unfold register
  split
  · trivial
  · apply returns_bind (returns_registerLoop _ _ casRetries)
    intro r _
    cases r <;> trivial

theorem returns_stampNode (name advertise : String) : Survives A (stampNode name advertise) := by
  apply returns_casLoop
  intro _ node _ _ _
  apply returns_call
  intro c w _
  dsimp only
  split <;> trivial

theorem returns_healLoop {reported : Int} (hrep : reported ≠ 0) (name : String) (n : ℕ) :
    Survives A (healLoop name reported n) := by
  induction n with
  | zero => trivial
  | succ n ih =>
    apply returns_call
    intro c w _
    dsimp only
    split
    · trivial
    · split
      · trivial
      · apply returns_bind (returns_indexHolder name reported)
        intro r _
        cases r with
        | error e => trivial
        | ok holder =>
          dsimp only
          split
          · trivial
          · apply returns_call
            intro c₁ w₁ _
            dsimp only
            split
            · split
              · exact ih
              · trivial
            · apply returns_bind (returns_yieldIndexCollision hrep name)
              intro _ _
              trivial

theorem returns_healNodeIndex (name : String) (stored reported : Int) :
    Survives A (healNodeIndex name stored reported) := by
  unfold healNodeIndex
  split
  · trivial
  · rename_i hrep
    split
    · trivial
    · exact returns_healLoop (fun h0 => hrep (Or.inl h0)) name casRetries

end Handlers

/- What a ReportStatus call may read: a stored instance of the reporting node, only if the
updates for it carry a status. -/
def CarriesStatus (req : ReportStatusRequest) (op : Op) (w : World) : Prop :=
  ∀ name inst rev, op = .get .inst name → w.store.lookup .inst name = some (inst, rev) →
    inst.spec.node = req.node → ∀ u ∈ req.instances, u.name = name → u.uid = inst.metadata.uid →
    u.status.isSome

section Report
variable {req : ReportStatusRequest}

theorem returns_applyInstanceStatus {u : InstanceStatusUpdate} (hu : u ∈ req.instances) :
    Survives (CarriesStatus req) (applyInstanceStatus req.node u) := by
  apply returns_casLoop
  intro w inst rev ha hl
  unfold judgeReport
  split
  · trivial
  · rename_i hnode
    split
    · trivial
    · rename_i huid
      have hsome := ha u.name inst rev rfl hl (not_not.mp hnode) u hu rfl (not_not.mp huid).symm
      split
      · rename_i hnone
        rw [hnone] at hsome
        cases hsome
      · dsimp only
        split <;> trivial

theorem returns_reportStatus (p : Principal) : Survives (CarriesStatus req) (reportStatus p req) := by
  unfold reportStatus
  split
  · trivial
  · split
    · trivial
    · apply returns_bind (P := fun _ => True)
      · apply returns_foldlM
        intro u hu _
        apply returns_bind (returns_applyInstanceStatus hu)
        intro _ _
        trivial
      · intro _ _
        apply returns_bind (returns_stampNode _ _)
        intro r _
        cases r with
        | error e => trivial
        | ok stored =>
          apply returns_bind (returns_healNodeIndex _ _ _)
          intro _ _
          trivial

end Report

-- The condition on a call's next read, by what it was started as.
def Call.reads : Call → Op → World → Prop
  | .reportStatus _ req => CarriesStatus req
  | _ => fun _ _ => True

theorem returns_agentCall (cfg : Config) (call : Call) (h : call.isAgent) : Survives call.reads (body cfg call) := by
  cases call with
  | register p req =>
    exact returns_bind (returns_register cfg.agent p req) fun _ _ => trivial
  | reportStatus p req => exact returns_bind (returns_reportStatus p) fun _ _ => trivial
  | _ => cases h

/- Whenever a ReportStatus call reads a stored instance of its node, the updates it carries for
that name and uid have a status. -/
def UpdatesCarry (s : Klited) : Step → Prop
  | .step t _ => ∀ th op p req, s.Calls t th op → th.tag = .reportStatus p req → CarriesStatus req op s.world
  | _ => True

theorem answered_of_carry {s : Klited} {l : Step} (h : UpdatesCarry s l) :
    s.Answered (fun g => g.isAgent) Call.reads l := by
  cases l with
  | step t c =>
    intro th op hcall _
    cases htag : th.tag with
    | reportStatus p req => exact h th op p req hcall htag
    | _ => trivial
  | _ => trivial

theorem agentCall_next (cfg : Config) {t : ℕ} {s : Klited} {l : Step}
    (hs : s.Returning (fun g => g.isAgent) Call.reads t) (hl : UpdatesCarry s l ∧ l ≠ .abandon t) :
    (s.next (body cfg) l).Returning (fun g => g.isAgent) Call.reads t :=
  returning_next (returns_agentCall cfg) hs (answered_of_carry hl.1) hl.2

/-- A Register or ReportStatus call never crashes and, given its turns, answers, in every run in
which the updates carry a status where it is needed. -/
theorem handlers_answer (cfg : Config) (w : World) (t : ℕ) :
    (∀ ls : List Step, Along (body cfg) (fun s l => UpdatesCarry s l ∧ l ≠ .abandon t) (start w) ls →
      ∀ th, ((start w).run (body cfg) ls).threads[t]? = some th → th.tag.isAgent → th.prog ≠ .crash) ∧
    (∀ ls : ℕ → Step, (∀ n, UpdatesCarry ((start w).run (body cfg) (upto ls n)) (ls n) ∧ ls n ≠ .abandon t) →
      (∀ n, ∃ d c, ls (n + d) = .step t c) →
      ∀ n th, ((start w).run (body cfg) (upto ls n)).threads[t]? = some th → th.tag.isAgent →
      ∃ m th' r, ((start w).run (body cfg) (upto ls m)).threads[t]? = some th' ∧ th'.prog = .ret r) := by
  have hstart : (start w).Returning (fun g => g.isAgent) Call.reads t := by
    intro th hth
    simp [start] at hth
  constructor
  · intro ls hls th hth hg hcrash
    have hret := run_invariant (body cfg) _ _ (fun s l hs hl => agentCall_next cfg hs hl) _ ls hstart hls
    have hth' := hret th hth hg
    rw [hcrash] at hth'
    exact hth'
  · intro ls hls hturn n th hth hg
    have hret : ∀ n, ((start w).run (body cfg) (upto ls n)).Returning (fun g => g.isAgent) Call.reads t := by
      intro n
      induction n with
      | zero => exact hstart
      | succ n ih =>
        rw [run_upto]
        exact agentCall_next cfg ih (hls n)
    exact returning_halts hret (fun n => (hls n).2) hturn hth hg

section Runs

def declaredNode : Node := { metadata := { name := "a" }, spec := { maxInstances := 4 } }

def declaredWorkload : Workload where
  metadata := { name := "web" }
  spec := { replicas := 1, template := { containers := [{ image := "img" }] } }

def bareReport (status : Option InstanceStatus) : Call :=
  .reportStatus (.node "a") { node := "a", instances := [⟨"web-1a2b", 3, status⟩] }

def bindSteps : List Step :=
  [.spawn (.apply (.ok [⟨.node, declaredNode⟩, ⟨.workload, declaredWorkload⟩])),
    .step 0 {}, .step 0 {}, .step 0 {}, .step 0 {},
    .spawn (.register .none { node := "a" }), .step 1 {}, .step 1 {}, .step 1 {}, .step 1 {}, .step 1 {},
    .spawn (.workload (fun _ names => names) 1), .step 2 {}, .step 2 {}, .step 2 {},
    .step 2 { suffix := "1a2b" }, .step 2 {}, .step 2 {},
    .spawn .scheduler, .step 3 {}, .step 3 {}, .step 3 {}, .step 3 {}]

def faulted (s : Klited) (t : ℕ) : Bool :=
  match s.threads[t]? with
  | some ⟨_, .crash, _⟩ => true
  | _ => false

/-- The node's own report, with an update that has no status, crashes the server at its first read. -/
theorem report_faults :
    faulted ((start ⟨Store.empty, 7 * second⟩).run (body plainConfig) (bindSteps ++ [.spawn (bareReport none)])) 4
      = false ∧ faulted ((start ⟨Store.empty, 7 * second⟩).run (body plainConfig)
      (bindSteps ++ [.spawn (bareReport none), .step 4 {}])) 4 = true := by
  decide +kernel

def carryCheck (s : Klited) (l : Step) : Bool :=
  match l with
  | .step t _ =>
    match s.threads[t]?.map Thread.tag with
    | some (.reportStatus _ req) => req.instances.all fun u => u.status.isSome
    | _ => true
  | .abandon _ => false
  | _ => true

theorem carry_of_check (t : ℕ) (s : Klited) (l : Step) (h : carryCheck s l) : UpdatesCarry s l ∧ l ≠ .abandon t := by
  cases l with
  | step u c =>
    constructor
    · intro th op p req hcall htag name inst rev _ _ _ u hu _ _
      simp only [carryCheck, hcall.1, Option.map_some, htag] at h
      exact List.all_eq_true.mp h u hu
    · nofun
  | abandon u => cases h
  | _ =>
    constructor
    · trivial
    · nofun

theorem carry_checked : checkAlong (body plainConfig) carryCheck (start ⟨Store.empty, 7 * second⟩)
      (bindSteps ++ [.spawn (bareReport (some { phase := .ready })), .step 4 {}, .step 4 {}]) := by
  decide +kernel

theorem handlers_answer_ready : ∀ th,
    ((start ⟨Store.empty, 7 * second⟩).run (body plainConfig)
      (bindSteps ++ [.spawn (bareReport (some { phase := .ready })), .step 4 {}, .step 4 {}])).threads[4]? = some th →
    th.tag.isAgent → th.prog ≠ .crash :=
  (handlers_answer plainConfig ⟨Store.empty, 7 * second⟩ 4).1 _
    (along_of_check (body plainConfig) (carry_of_check 4) _ _ carry_checked)

end Runs

end Klite
