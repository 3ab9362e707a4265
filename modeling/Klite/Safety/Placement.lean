import Klite.Controller.NodeSpec
import Klite.Lib.Process

/-!
# Where the scheduler places instances

A pass lists instances, nodes and workloads and goes through the unbound instances one
after the other, counting its own bindings.
-/

namespace Klite
open Lib

def succeeded : Event Op Res World → Bool
  | ⟨.list _, r, _, _⟩ => r.isOk
  | ⟨.put _ _ _, r, _, _⟩ => r.isOk
  | _ => true

/-- The write of a binding; the other instances a pass writes stay unbound. -/
def bindingOf : Event Op Res World → Option Instance
  | ⟨.put .inst o _, _, _, _⟩ => if o.spec.node = "" then none else some o
  | _ => none

def bindings (h : Log) : List Instance := h.filterMap bindingOf

def pending (insts : List Instance) : List Instance := insts.filter fun i => i.spec.node = ""

/-- How many instances the node has after these bindings. -/
def loadOf (insts made : List Instance) (name : String) : ℕ :=
  insts.countP (fun i => i.spec.node = name) + made.countP fun i => i.spec.node = name

def Open (n : Node) : Prop := n.phase = .ready ∧ n.getStatus.unschedulable = false

/- The bindings `made` for the instances gone through. -/
structure Scheduled (insts : List Instance) (nodes : List Node) (wls : List Workload) (done made : List Instance) :
    Prop where
  once : (made.map (·.metadata.name)).Nodup
  unbound : ∀ b ∈ made, ∃ i ∈ done, i.spec.node = "" ∧ b = boundTo i b.spec.node
  node : ∀ b ∈ made, ∃ n ∈ nodes, n.metadata.name = b.spec.node ∧ Open n ∧
    (pinOf wls b.spec.workload ≠ "" → b.spec.node = pinOf wls b.spec.workload)
  capacity : ∀ n ∈ nodes, (loadOf insts made n.metadata.name : Int) ≤
    max n.spec.maxInstances (loadOf insts [] n.metadata.name)
  left : ∀ i ∈ done, (∀ b ∈ made, b.metadata.name ≠ i.metadata.name) → ∀ n ∈ nodes, Open n →
    (pinOf wls i.spec.workload = "" ∨ n.metadata.name = pinOf wls i.spec.workload) →
    n.spec.maxInstances ≤ loadOf insts made n.metadata.name
  balanced : (∀ i ∈ insts, i.spec.node = "" → pinOf wls i.spec.workload = "") → ∀ b ∈ made, ∀ m ∈ nodes, Open m →
    (loadOf insts made m.metadata.name : Int) < m.spec.maxInstances →
    loadOf insts made b.spec.node ≤ loadOf insts made m.metadata.name + 1

section Loop
variable {insts : List Instance} {nodes : List Node} {wls : List Workload} {done made : List Instance}

theorem loadOf_cons (b : Instance) (name : String) :
    loadOf insts (b :: made) name = loadOf insts made name + if b.spec.node = name then 1 else 0 := by
  unfold loadOf
  rw [List.countP_cons]
  simp only [decide_eq_true_eq]
  omega

theorem placed_start : Scheduled insts nodes wls [] [] where
  once := List.nodup_nil
  unbound b hb := by cases hb
  node b hb := by cases hb
  capacity n _ := le_max_right _ _
  left i hi := by cases hi
  balanced _ b hb := by cases hb

/- The list of bound names that the pass keeps has the counts. -/
def Counts (insts made : List Instance) (bound : List String) : Prop :=
  ∀ name, name ≠ "" → bound.count name = loadOf insts made name

theorem counts_start : Counts insts [] ((insts.map (·.spec.node)).filter (· ≠ "")) := by
  intro name hne
  unfold loadOf
  rw [List.countP_nil, Nat.add_zero, List.count_filter (by simpa using hne), List.count, List.countP_map]
  rfl

theorem counts_bind {bound : List String} (h : Counts insts made bound) (b : Instance) :
    Counts insts (b :: made) (b.spec.node :: bound) := by
  intro name hne
  rw [loadOf_cons, List.count_cons, h name hne]
  simp only [beq_iff_eq]

variable {bound : List String} (hc : Counts insts made bound) (hvalid : ∀ n ∈ nodes, n.metadata.name ≠ "")
include hc hvalid

theorem full_of_unschedulable {pin : String} {n : Node} (hn : n ∈ nodes) (ho : Open n)
    (hpin : pin = "" ∨ n.metadata.name = pin) (hs : ¬ schedulable pin bound n) :
    n.spec.maxInstances ≤ loadOf insts made n.metadata.name := by
  by_contra hlt
  rw [not_le, ← hc _ (hvalid n hn)] at hlt
  exact hs (schedulable_iff.mpr ⟨hpin, ho.1, ho.2, hlt⟩)

variable (h : Scheduled insts nodes wls done made) {inst : Instance}
include h

theorem placed_skip (hbest : BestOf (pinOf wls inst.spec.workload) bound nodes none) :
    Scheduled insts nodes wls (done ++ [inst]) made where
  once := h.once
  unbound b hb := by
    obtain ⟨i, hi, hrest⟩ := h.unbound b hb
    exact ⟨i, List.mem_append_left _ hi, hrest⟩
  node := h.node
  capacity := h.capacity
  left i hi hnot n hn ho hpin := by
    rcases List.mem_append.mp hi with hold | hnew
    · exact h.left i hold hnot n hn ho hpin
    · rw [List.mem_singleton.mp hnew] at hpin
      exact full_of_unschedulable hc hvalid hn ho hpin (hbest n hn)
  balanced := h.balanced

theorem placed_bind (hinst : inst ∈ insts) (hu : inst.spec.node = "")
    (hnew : ∀ i ∈ done, i.metadata.name ≠ inst.metadata.name)
    (hnames : ∀ n ∈ nodes, ∀ m ∈ nodes, n.metadata.name = m.metadata.name → n = m) {n : Node}
    (hbest : BestOf (pinOf wls inst.spec.workload) bound nodes (some n)) :
    Scheduled insts nodes wls (done ++ [inst]) (boundTo inst n.metadata.name :: made) := by
  obtain ⟨hn, hs, hmin⟩ := hbest
  obtain ⟨hpin, hready, hsched, hroom⟩ := schedulable_iff.mp hs
  have hgrow : ∀ name, loadOf insts (boundTo inst n.metadata.name :: made) name =
      loadOf insts made name + if n.metadata.name = name then 1 else 0 := fun name => loadOf_cons _ _
  have hle : ∀ name, loadOf insts made name ≤ loadOf insts (boundTo inst n.metadata.name :: made) name := by
    intro name
    rw [hgrow]
    omega
  rw [hc _ (hvalid n hn)] at hroom
  refine ⟨?_, ?_, ?_, ?_, ?_, ?_⟩
  · rw [List.map_cons, List.nodup_cons]
    refine ⟨?_, h.once⟩
    intro hm
    obtain ⟨b, hb, hbn⟩ := List.mem_map.mp hm
    obtain ⟨i, hi, -, hbi⟩ := h.unbound b hb
    rw [hbi] at hbn
    exact hnew i hi hbn
  · intro b hb
    rcases List.mem_cons.mp hb with rfl | hold
    · exact ⟨inst, by simp, hu, rfl⟩
    · obtain ⟨i, hi, hrest⟩ := h.unbound b hold
      exact ⟨i, List.mem_append_left _ hi, hrest⟩
  · intro b hb
    rcases List.mem_cons.mp hb with rfl | hold
    · exact ⟨n, hn, rfl, ⟨hready, hsched⟩, fun hne => hpin.resolve_left hne⟩
    · exact h.node b hold
  · intro m hm
    have hcap := h.capacity m hm
    rw [hgrow]
    split
    · rename_i heq
      obtain rfl := hnames n hn m hm heq
      have hmax := le_max_left n.spec.maxInstances (loadOf insts [] n.metadata.name : Int)
      omega
    · omega
  · intro i hi hnot m hm ho hpin'
    have hnew' := hle m.metadata.name
    rcases List.mem_append.mp hi with hold | hlast
    · have := h.left i hold (fun b hb => hnot b (List.mem_cons_of_mem _ hb)) m hm ho hpin'
      omega
    · rw [List.mem_singleton.mp hlast] at hnot
      exact absurd rfl (hnot (boundTo inst n.metadata.name) List.mem_cons_self)
  · intro hall b hb m hm ho hfree
    have hm' := hle m.metadata.name
    have hfree' : (loadOf insts made m.metadata.name : Int) < m.spec.maxInstances := by omega
    -- No pin is in the way, so the picked node was a least loaded one.
    have hleast : loadOf insts made n.metadata.name ≤ loadOf insts made m.metadata.name := by
      rw [← hc _ (hvalid n hn), ← hc _ (hvalid m hm)]
      refine hmin m hm (schedulable_iff.mpr ⟨Or.inl (hall inst hinst hu), ho.1, ho.2, ?_⟩)
      rw [hc _ (hvalid m hm)]
      exact hfree'
    by_cases hbn : n.metadata.name = b.spec.node
    · rw [← hbn, hgrow, if_pos rfl]
      omega
    · rw [hgrow, if_neg hbn]
      rcases List.mem_cons.mp hb with rfl | hold
      · exact absurd rfl hbn
      · have := h.balanced hall b hold m hm ho hfree'
        omega

end Loop

section Pass
variable {insts : List Instance} {nodes : List Node} {wls : List Workload}

/- Where the pass stands: what is left, and what it has done and kept. -/
def Underway (insts : List Instance) (nodes : List Node) (wls : List Workload) (h₀ : Log) (rest : List Instance)
    (h : Log) (_ : World) (p : Placement) : Prop :=
  ∃ done, done ++ rest = pending insts ∧ Counts insts (bindings h) p.bound ∧
    Scheduled insts nodes wls done (bindings h) ∧ SameLists h₀ h

theorem bindings_put (o : Instance) (rev : Int) (r : Except StoreErr Int) (w w' : World) (h : Log) :
    bindings (⟨.put .inst o rev, r, w, w'⟩ :: h) = if o.spec.node = "" then bindings h else o :: bindings h := by
  unfold bindings
  rw [List.filterMap_cons]
  simp only [bindingOf]
  by_cases hn : o.spec.node = ""
  · simp only [if_pos hn]
  · simp only [if_neg hn]

-- In a run in which every call succeeds, whoever else writes.
abbrev Succeeds {α : Type} (Q : Log → World → α → Prop) (p : Code α) (h : Log) (w : World) : Prop :=
  Guards (AnyMove klited) (fun e => succeeded e) (AnyCall klited) Q p h w

theorem guards_explainPending (inst : Instance) (reason : String) (hu : inst.spec.node = "") (h : Log) (w : World) :
    Succeeds (fun h' _ _ => bindings h' = bindings h ∧ SameLists h h')
      (explainPending inst reason) h w := by
  unfold explainPending
  split
  · exact ⟨rfl, sameLists_refl h⟩
  · refine guards_answer (fun _ _ => trivial) fun w' c r w'' _ _ _ => ?_
    have hq := bindings_put (explained inst reason) inst.metadata.resourceVersion r w' w'' h
    rw [if_pos (show (explained inst reason).spec.node = "" from hu)] at hq
    cases r with
    | ok rev => exact ⟨hq, sameLists_cons nofun⟩
    | error e => exact ⟨hq, sameLists_cons nofun⟩

theorem guards_bindInstance (inst : Instance) (node : String) (hne : node ≠ "") (h : Log) (w : World) :
    Succeeds (fun h' _ r => r = none ∧ bindings h' = boundTo inst node :: bindings h ∧ SameLists h h')
      (bindInstance inst node) h w := by
  refine guards_answer (fun _ _ => trivial) fun w' c r w'' _ _ hok => ?_
  have hq := bindings_put (boundTo inst node) inst.metadata.resourceVersion r w' w'' h
  rw [if_neg (show (boundTo inst node).spec.node ≠ "" from hne)] at hq
  cases r with
  | ok rev => exact ⟨rfl, hq, sameLists_cons nofun⟩
  | error e => cases hok

variable (hinsts : (insts.map (·.metadata.name)).Nodup)
  (hnames : ∀ n ∈ nodes, ∀ m ∈ nodes, n.metadata.name = m.metadata.name → n = m)
  (hvalid : ∀ n ∈ nodes, n.metadata.name ≠ "") {h₀ : Log}
include hinsts hnames hvalid

theorem guards_placeOne (inst : Instance) (rest : List Instance) (h : Log) (w : World) (p : Placement)
    (hi : Underway insts nodes wls h₀ (inst :: rest) h w p) :
    Succeeds (Underway insts nodes wls h₀ rest) (placeOne wls nodes p inst) h w := by
  obtain ⟨done, hdone, hc, hplaced, hsame⟩ := hi
  have hmem : inst ∈ pending insts := by
    rw [← hdone]
    simp
  obtain ⟨hinst, hu⟩ := List.mem_filter.mp hmem
  have hu : inst.spec.node = "" := of_decide_eq_true hu
  have hdone' : (done ++ [inst]) ++ rest = pending insts := by
    rw [← hdone, List.append_assoc, List.singleton_append]
  have hbest : BestOf (pinOf wls inst.spec.workload) p.bound nodes (bestNode (pinOf wls inst.spec.workload) nodes p.bound) :=
    bestNode_best nodes
  unfold placeOne
  dsimp only
  cases hb : bestNode (pinOf wls inst.spec.workload) nodes p.bound with
  | none =>
    rw [hb] at hbest
    refine guards_bind (guards_explainPending inst _ hu h w) ?_
    rintro h' w' e ⟨hq, hs⟩
    refine ⟨done ++ [inst], hdone', ?_, ?_, sameLists_trans hsame hs⟩
    · rw [hq]
      exact hc
    · rw [hq]
      exact placed_skip hc hvalid hplaced hbest
  | some n =>
    rw [hb] at hbest
    -- The names of the instances gone through are others.
    have hnew : ∀ i ∈ done, i.metadata.name ≠ inst.metadata.name := by
      intro i hid heq
      have hnodup : ((pending insts).map (·.metadata.name)).Nodup := hinsts.sublist (List.filter_sublist.map _)
      rw [← hdone, List.map_append, List.nodup_append] at hnodup
      exact hnodup.2.2 _ (List.mem_map_of_mem hid) _ (List.mem_map_of_mem List.mem_cons_self) heq
    refine guards_bind (guards_bindInstance inst n.metadata.name (hvalid n hbest.1) h w) ?_
    rintro h' w' r ⟨rfl, hq, hs⟩
    refine ⟨done ++ [inst], hdone', ?_, ?_, sameLists_trans hsame hs⟩
    · rw [hq]
      exact counts_bind hc (boundTo inst n.metadata.name)
    · rw [hq]
      exact placed_bind hc hvalid hplaced hinst hu hnew hnames hbest

theorem guards_placeListed (h : Log) (w : World) (hb : bindings h = []) :
    Succeeds (fun h' _ _ => Scheduled insts nodes wls (pending insts) (bindings h') ∧ SameLists h h')
      (placeListed insts nodes wls) h w := by
  refine guards_mono ?_ _ _ _ (guards_foldlM _ (Underway insts nodes wls h)
    (fun inst rest h' w' p hi => guards_placeOne hinsts hnames hvalid inst rest h' w' p hi) _ _ _ _ ?_)
  · rintro h' w' p ⟨done, hdone, -, hplaced, hsame⟩
    rw [List.append_nil] at hdone
    rw [← hdone]
    exact ⟨hplaced, hsame⟩
  · refine ⟨[], rfl, ?_, ?_, sameLists_refl h⟩
    · rw [hb]
      exact counts_start
    · rw [hb]
      exact placed_start

end Pass

theorem guards_list {α : Type} {k : Kind} {f : Except StoreErr (List k.Obj × Int) → Code α}
    {Q : Log → World → α → Prop} {h : Log} {w : World}
    (hf : ∀ c w', (exec c (.list k) w').1 = .ok (w'.store.listing k, w'.store.rev) →
      Succeeds Q (f (.ok (w'.store.listing k, w'.store.rev)))
        (klited.event c (.list k) w' :: h) w') :
    Succeeds Q (list k >>= f) h w := by
  refine guards_call fun w' _ => ⟨trivial, fun c hok => ?_⟩
  change (exec c (.list k) w').1.isOk at hok
  have hr : (exec c (.list k) w').1 = .ok (w'.store.listing k, w'.store.rev) := by
    simp only [exec] at hok ⊢
    split at hok
    · rename_i hc
      rw [if_pos hc]
    · cases hok
  show Guards _ _ _ Q (f (exec c (.list k) w').1) _ _
  rw [hr]
  exact hf c w' hr

theorem guards_schedulerReconcile (w : World) :
    Succeeds (fun h _ _ => ∃ insts nodes wls, lastListed .inst h = some insts ∧ lastListed .node h = some nodes ∧
        lastListed .workload h = some wls ∧ Scheduled insts nodes wls (pending insts) (bindings h))
      schedulerReconcile [] w := by
  refine guards_list fun c₁ w₁ hr₁ => guards_list fun c₂ w₂ hr₂ => guards_list fun c₃ w₃ hr₃ => ?_
  have hl₁ := listed_other (listed_other (listed_event hr₁ (h := [])) .node (by decide) c₂ w₂) .workload (by decide) c₃ w₃
  have hl₂ := listed_other (listed_event hr₂ (h := [klited.event c₁ (.list .inst) w₁])) .workload (by decide) c₃ w₃
  have hl₃ := listed_event hr₃ (h := [klited.event c₂ (.list .node) w₂, klited.event c₁ (.list .inst) w₁])
  refine guards_mono ?_ _ _ _ (guards_placeListed (listing_names w₁.store .inst)
    (fun n hn m hm heq => listing_name_inj (k := .node) hn hm heq) ?_ _ _ rfl)
  · rintro h' w' p ⟨hplaced, hsame⟩
    exact ⟨_, _, _, (hsame.2 .inst).trans hl₁.last, (hsame.2 .node).trans hl₂.last, (hsame.2 .workload).trans hl₃.last, hplaced⟩
  · intro n hn hempty
    have hname : validName n.metadata.name := (lookup_some (mem_listing.mp hn)).2.2.1
    rw [hempty] at hname
    exact absurd hname (by decide)

/-- One pass of the scheduler, whatever the other writers do between its calls: when all its calls
succeed, its bindings are as `Scheduled` says for what it listed. -/
theorem scheduler_placement (w : World) (ls : List (Tick klited)) :
    let s := runs Proc.next (schedulerReconcile.start w) ls
    ∀ p, s.prog = .ret p → (∀ e ∈ s.hist, succeeded e) →
      ∃ insts nodes wls, lastListed .inst s.hist = some insts ∧ lastListed .node s.hist = some nodes ∧
        lastListed .workload s.hist = some wls ∧ Scheduled insts nodes wls (pending insts) (bindings s.hist) := by
  intro s p hp hok
  have hrun := guards_run (fun _ => trivial) (fun _ _ _ _ _ => trivial) (guards_schedulerReconcile w)
    (admits_of_hist (fun _ _ => trivial) hok)
  obtain ⟨-, -, hq⟩ := hrun.2 p hp
  exact hq

def readyWith (name : String) (maxInstances : Int) : Node where
  metadata := { name := name }
  spec := { maxInstances := maxInstances }
  status := some { phase := .ready }

def replica (node workload name : String) : Instance where
  metadata := { name := name }
  spec := { workload := workload, node := node }

def waitingWeb : List Instance := ["web-3", "web-4", "web-5"].map (replica "" "web")

/- Two instances are bound to `n1` and none to `n2`; `db` is pinned to `n1`. -/
def unevenPass (waiting : List Instance) : Lib.Proc klited Placement :=
  let nodes := [readyWith "n1" 3, readyWith "n2" 4].foldl (fun s n => (s.put 0 .node n revCreate).2) Store.empty
  let pinned := (nodes.put 0 .workload { metadata := { name := "db" }, spec := { nodeName := "n1" } } revCreate).2
  let store := (["web-1", "web-2"].map (replica "n1" "web") ++ waiting).foldl (fun s i => (s.put 0 .inst i revCreate).2) pinned
  runs Proc.next (schedulerReconcile.start ⟨store, 0⟩) (List.replicate (3 + waiting.length) (.step {}))

/-- With a pinned workload, `db-1` takes the last place of the fuller node and `db-2` stays pending though `n2` has room.
Without one, the counts end within one of each other. -/
theorem scheduler_placement_uneven :
    let s := unevenPass (["db-1", "db-2"].map (replica "" "db") ++ waitingWeb)
    let s' := unevenPass waitingWeb
    [s, s'].map (fun s => (bindings s.hist).map fun b => (b.metadata.name, b.spec.node)) =
      [[("web-5", "n2"), ("web-4", "n2"), ("web-3", "n2"), ("db-1", "n1")],
        [("web-5", "n1"), ("web-4", "n2"), ("web-3", "n2")]] ∧
    ∀ t ∈ [s, s'], ∃ insts nodes wls, lastListed .inst t.hist = some insts ∧ lastListed .node t.hist = some nodes ∧
      lastListed .workload t.hist = some wls ∧ Scheduled insts nodes wls (pending insts) (bindings t.hist) := by
  intro s s'
  have hok : ∀ t ∈ [s, s'], t.hist.all succeeded := by decide +kernel
  refine ⟨by decide +kernel, ?_⟩
  rw [List.forall_mem_cons, List.forall_mem_singleton] at hok ⊢
  have hret : (∃ p, s.prog = .ret p) ∧ ∃ p, s'.prog = .ret p := ⟨⟨_, rfl⟩, _, rfl⟩
  obtain ⟨⟨p, hp⟩, p', hp'⟩ := hret
  constructor
  · exact scheduler_placement _ _ p hp (List.all_eq_true.mp hok.1)
  · exact scheduler_placement _ _ p' hp' (List.all_eq_true.mp hok.2)

end Klite
