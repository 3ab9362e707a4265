import Klite.Safety.Instances

/-!
# Removed nodes

The scheduler binds an instance to a node it listed earlier, and the node controller
removes a node it has counted no instance on earlier.
-/

namespace Klite
open Lib

def NodesKnown (w : World) : Prop :=
  ∀ inst : Instance, Holds w.store .inst inst → inst.spec.node ≠ "" →
    w.store.lookup .node inst.spec.node ≠ none

def Choosing (s : Klited) (m : String) : Prop :=
  ∃ (u : ℕ) (th : Proc) (op : Op) (nodes : List Node), s.Calls u th op ∧ th.tag = .scheduler ∧
    lastListed .node th.hist = some nodes ∧ Offered nodes m

structure RemovalInv (cfg : Config) (s : Klited) : Prop where
  sound : Sound cfg s
  running : Running (fun g => g.modelled) s
  known : NodesKnown s.world
  choosing : ∀ m, Choosing s m → s.world.store.lookup .node m ≠ none

/- A node's record is removed only while no instance is bound to it and no scheduler
pass may still bind one. -/
def RemovesFree (cfg : Config) (s : Klited) (l : Step) : Prop :=
  ∀ m, s.world.store.lookup .node m ≠ none →
    (s.next (body cfg) l).world.store.lookup .node m = none → ¬ Bound s.world m ∧ ¬ Choosing s m

def RemovalCond (cfg : Config) (s : Klited) (l : Step) : Prop :=
  Admits (fun g => g.modelled) l ∧ RemovesFree cfg s l

section Next
variable {cfg : Config} {s : Klited} {l : Step}

theorem known_keeps (hs : RemovalInv cfg s) (hc : RemovesFree cfg s l) {m : String} (h0 : m ≠ "")
    (hb : Bound s.world m) : (s.next (body cfg) l).world.store.lookup .node m ≠ none := by
  obtain ⟨inst, hi, hn⟩ := hb
  have hold := hs.known inst hi (hn ▸ h0)
  rw [hn] at hold
  exact fun hnone => (hc m hold hnone).1 ⟨inst, hi, hn⟩

theorem choosing_keeps (hs : RemovalInv cfg s) (hc : RemovesFree cfg s l) {m : String}
    (hm : Choosing s m) : (s.next (body cfg) l).world.store.lookup .node m ≠ none :=
  fun hnone => (hc m (hs.choosing m hm) hnone).2 hm

theorem known_next (hs : RemovalInv cfg s) (hc : RemovalCond cfg s l) : NodesKnown (s.next (body cfg) l).world := by
  intro inst hi h0
  rcases next_instance hs.sound hs.running (fun _ hg => hg) hc.1 hi with
    hold | ⟨hnew, -⟩ | ⟨t, c, th, cur, new, rfl, hcall, -, hcur, hedit, hspec, -⟩
  · exact known_keeps hs hc.2 h0 ⟨inst, hold, rfl⟩
  · exact absurd hnew h0
  · rw [hspec] at h0 ⊢
    cases hedit with
    | report p req htag hedit =>
      rw [(report_keeps hedit).1] at h0 ⊢
      exact known_keeps hs hc.2 h0 ⟨cur, hcur, rfl⟩
    | retired order passes reason htag hready hnew =>
      subst hnew
      exact known_keeps hs hc.2 h0 ⟨cur, hcur, rfl⟩
    | placed nodes node htag hnode hlast hoff hnew =>
      subst hnew
      exact choosing_keeps hs hc.2 ⟨t, th, _, nodes, hcall, htag, hlast, hoff⟩
    | refused pin htag hnode hnew =>
      subst hnew
      exact absurd hnode h0

theorem choosing_next (hs : RemovalInv cfg s) (hc : RemovesFree cfg s l) (m : String)
    (hm : Choosing (s.next (body cfg) l) m) : (s.next (body cfg) l).world.store.lookup .node m ≠ none := by
  obtain ⟨u, th', op', nodes, ⟨hu, k', hp'⟩, htag, hlast, hoff⟩ := hm
  rcases next_thread (body cfg) hu with
    ⟨th, hth, ht, hh, hp⟩ | ⟨g, -, rfl⟩ | ⟨c, th, op, k, rfl, hth, hp, rfl⟩
  · rcases hp with hp | hp
    · exact choosing_keeps hs hc
        ⟨u, th, op', nodes, ⟨hth, k', hp.symm.trans hp'⟩, ht.symm.trans htag, hh ▸ hlast, hoff⟩
    · rw [hp] at hp'
      cases hp'
  · cases hlast
  · cases hl : listedBy .node (klited.event c op s.world) with
    | none =>
      rw [lastListed_cons hl] at hlast
      exact choosing_keeps hs hc ⟨u, th, op, nodes, ⟨hth, k, hp⟩, htag, hlast, hoff⟩
    | some nodes' =>
      obtain rfl : nodes' = nodes := by
        unfold lastListed at hlast
        rw [List.findSome?_cons, hl] at hlast
        exact Option.some.inj hlast
      have hworld : (s.next (body cfg) (.step u c)).world = s.world := by
        rw [next_call (body cfg) hth hp]
        exact listedBy_world hl
      obtain ⟨n, hn, rfl, -⟩ := hoff
      rw [listedBy_listing hl, mem_listing] at hn
      rw [hworld, show s.world.store.lookup .node n.metadata.name = some _ from hn]
      simp

theorem removalInv_next (hs : RemovalInv cfg s) (hc : RemovalCond cfg s l) : RemovalInv cfg (s.next (body cfg) l) :=
  ⟨sound_next l hs.sound, running_next hs.running hc.1, known_next hs hc, choosing_next hs hc.2⟩

end Next

/-- From a store in which every bound instance names a stored node, over every run that
removes a node only while it is free: in every state reached, every bound instance names
a stored node. -/
theorem nodes_known (cfg : Config) (w : World) (ls : List Step) (hw : NodesKnown w)
    (hc : Along (body cfg) (RemovalCond cfg) (start w) ls) : NodesKnown ((start w).run (body cfg) ls).world := by
  have hstart : RemovalInv cfg (start w) :=
    ⟨sound_start w, fun th hth => (by cases hth), hw, fun m ⟨u, th, _, _, ⟨hu, _⟩, _⟩ => (by cases hu)⟩
  exact (run_invariant (body cfg) (RemovalInv cfg) (RemovalCond cfg)
    (fun _ _ hs hl => removalInv_next hs hl) (start w) ls hstart hc).known

def Idle (s : Klited) : Prop := ∀ th ∈ s.threads, ∀ op k, th.prog ≠ .call op k

-- A further pass, alone and without a store error, writes nothing.
def WritesNothing (cfg : Config) (g : Call) (w : World) : Prop :=
  ((body cfg g).eval klited (fun _ => {}) w).2.store.rev = w.store.rev

section Checks

def knownCheck (w : World) : Bool :=
  (w.store.listing .inst).all fun i => i.spec.node = "" || (w.store.lookup .node i.spec.node).isSome

theorem nodesKnown_iff (w : World) : NodesKnown w ↔ knownCheck w := by
  unfold NodesKnown knownCheck
  simp only [List.all_eq_true, Bool.or_eq_true, decide_eq_true_eq, Option.isSome_iff_ne_none]
  constructor
  · intro h i hi
    by_cases h0 : i.spec.node = ""
    · exact Or.inl h0
    · exact Or.inr (h i (mem_listing.mp hi) h0)
  · intro h i hi h0
    exact (h i (mem_listing.mpr hi)).resolve_left h0

def idleCheck (s : Klited) : Bool :=
  s.threads.all fun th =>
    match th.prog with
    | .call _ _ => false
    | _ => true

theorem idle_of_check {s : Klited} (h : idleCheck s) : Idle s := by
  intro th hth op k hp
  have hc := List.all_eq_true.mp h th hth
  rw [hp] at hc
  cases hc

def Call.isScheduler : Call → Bool
  | .scheduler => true
  | _ => false

def removalCheck (cfg : Config) (s : Klited) (l : Step) : Bool :=
  admitsCheck Call.modelled l &&
  (s.world.store.listing .node).all fun n =>
    ((s.next (body cfg) l).world.store.lookup .node n.metadata.name).isSome ||
    ((s.world.store.listing .inst).all (fun i => i.spec.node ≠ n.metadata.name) &&
      s.threads.all fun th => !th.tag.isScheduler)

theorem removalCond_of_check (cfg : Config) (s : Klited) (l : Step) (h : removalCheck cfg s l) :
    RemovalCond cfg s l := by
  simp only [removalCheck, Bool.and_eq_true, List.all_eq_true, Bool.or_eq_true] at h
  refine ⟨admits_of_check h.1, ?_⟩
  intro m hm hnone
  obtain ⟨⟨n, r⟩, hn⟩ := Option.ne_none_iff_exists'.mp hm
  have hname : n.metadata.name = m := (lookup_some hn).1
  have hfree := h.2 n (mem_listing.mpr (holds_of_lookup hn))
  rw [hname, hnone] at hfree
  obtain ⟨hb, hs⟩ := hfree.resolve_left (by simp)
  refine ⟨?_, ?_⟩
  · rintro ⟨i, hi, hin⟩
    exact of_decide_eq_true (hb i (mem_listing.mpr hi)) hin
  · rintro ⟨u, th, op, nodes, hcall, htag, -⟩
    have hnot := hs th (List.mem_of_getElem? hcall.1)
    rw [htag] at hnot
    cases hnot

end Checks

section Runs

def readyNode : Node where
  metadata := { name := "a" }
  spec := { maxInstances := 4 }
  status := some { phase := .ready, nodeIndex := 1, lastHeartbeatUnix := 7 }

def oneReplica : Workload where
  metadata := { name := "web" }
  spec := { replicas := 1, template := { containers := [{}] } }
  status := some { totalInstances := 1, templateHash := "h" }

def waitingInstance : Instance where
  metadata := { name := "web-1a2b" }
  spec := { workload := "web", templateHash := "h" }
  status := some { phase := .pending }

def waitingWorld : World :=
  ⟨(((Store.empty.put 7 .node readyNode revCreate).2.put 7 .workload oneReplica revCreate).2.put 7 .inst
    waitingInstance revCreate).2, 7 * second⟩

/- The scheduler lists the node as READY and stops before it binds. The node is deleted,
and the node controller, which counts no instance on it, removes the record. Then the
scheduler binds. -/
def strandSteps : List Step :=
  [.spawn .scheduler, .step 0 {}, .step 0 {}, .step 0 {},
    .spawn (.delete (.named (.ok .node) "a")), .step 1 {}, .step 1 {},
    .spawn .nodeController, .step 2 {}, .step 2 {}, .step 2 {}, .step 0 {}]

theorem instance_stranded : NodesKnown waitingWorld ∧ Idle (plainRun waitingWorld strandSteps) ∧
    (∀ g ∈ [Call.workload (fun _ names => names) 1, .scheduler, .nodeController],
      WritesNothing plainConfig g (plainRun waitingWorld strandSteps).world) ∧
    ¬ NodesKnown (plainRun waitingWorld strandSteps).world := by
  simp only [nodesKnown_iff]
  refine ⟨by decide +kernel, idle_of_check (by decide +kernel), ?_, by decide +kernel⟩
  simp only [List.forall_mem_cons, List.not_mem_nil, false_imp_iff, implies_true, and_true]
  unfold WritesNothing
  refine ⟨?_, ?_, ?_⟩
  · decide +kernel
  · decide +kernel
  · decide +kernel

def spareNode : Node := { readyNode with metadata := { name := "b" } }

def spreadInstance : Instance where
  metadata := { name := "web-3c4d" }
  spec := { workload := "web", node := "b", templateHash := "h" }
  status := some { phase := .ready }

def spreadWorld : World :=
  ⟨((waitingWorld.store.put 7 .node spareNode revCreate).2.put 7 .inst spreadInstance revCreate).2, 7 * second⟩

def emptiedSteps : List Step :=
  [.spawn (.delete (.named (.ok .node) "a")), .step 0 {}, .step 0 {}, .spawn .nodeController] ++
    List.replicate 4 (.step 1 {}) ++ .spawn .scheduler :: List.replicate 5 (.step 2 {})

/-- Both instances end on `b`, and `a` is gone. -/
theorem nodes_known_emptied :
    ((plainRun spreadWorld emptiedSteps).world.store.listing .inst).map (·.spec.node) = ["b", "b"] ∧
    (plainRun spreadWorld emptiedSteps).world.store.lookup .node "a" = none ∧
    NodesKnown (plainRun spreadWorld emptiedSteps).world :=
  ⟨by decide +kernel, by decide +kernel, nodes_known plainConfig spreadWorld emptiedSteps ((nodesKnown_iff _).mpr (by decide +kernel))
    (along_of_check (body plainConfig) (removalCond_of_check plainConfig) _ _ (by decide +kernel))⟩

end Runs

end Klite
