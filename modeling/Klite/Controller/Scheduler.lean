import Klite.Server.Auth

/-!
# The scheduler (internal/controller/scheduler.go)

`bound` lists the node of every bound instance, once for each, so the source's
`counts[name]` is how often a name occurs in it.
-/

namespace Klite
open Lib

def msgNoCapacity : String := "no ready schedulable node with free capacity"

-- What the loop of `pickNode` lets through (scheduler.go:81-92).
def schedulable (pin : String) (bound : List String) (n : Node) : Bool :=
  (pin = "" ∨ n.metadata.name = pin) ∧ n.phase = .ready ∧ !n.getStatus.unschedulable ∧
    (bound.count n.metadata.name : Int) < n.spec.maxInstances

def better (bound : List String) (best : Option Node) (n : Node) : Option Node :=
  match best with
  | none => some n
  | some b =>
    if bound.count n.metadata.name < bound.count b.metadata.name ∨
        (bound.count n.metadata.name = bound.count b.metadata.name ∧ n.metadata.name < b.metadata.name)
    then some n else some b

def bestNode (pin : String) (nodes : List Node) (bound : List String) : Option Node :=
  nodes.foldl (fun best n => if schedulable pin bound n then better bound best n else best) none

/- What the loop has found among the nodes it has gone through. -/
def BestOf (pin : String) (bound : List String) (seen : List Node) : Option Node → Prop
  | none => ∀ m ∈ seen, ¬ schedulable pin bound m
  | some n => n ∈ seen ∧ schedulable pin bound n ∧
      ∀ m ∈ seen, schedulable pin bound m → bound.count n.metadata.name ≤ bound.count m.metadata.name

section Best
variable {pin : String} {bound : List String}

theorem bestOf_snoc {seen : List Node} {best : Option Node} (h : BestOf pin bound seen best) (n : Node) :
    BestOf pin bound (seen ++ [n]) (if schedulable pin bound n then better bound best n else best) := by
  split
  · rename_i hs
    cases best with
    | none =>
      refine ⟨by simp, hs, fun m hm hsm => ?_⟩
      rcases List.mem_append.mp hm with hold | hnew
      · exact absurd hsm (h m hold)
      · rw [List.mem_singleton.mp hnew]
    | some b =>
      obtain ⟨hb, hsb, hmin⟩ := h
      by_cases hlt : bound.count n.metadata.name < bound.count b.metadata.name ∨
          (bound.count n.metadata.name = bound.count b.metadata.name ∧ n.metadata.name < b.metadata.name)
      · simp only [better, if_pos hlt]
        refine ⟨by simp, hs, fun m hm hsm => ?_⟩
        rcases List.mem_append.mp hm with hold | hnew
        · have := hmin m hold hsm
          omega
        · rw [List.mem_singleton.mp hnew]
      · simp only [better, if_neg hlt]
        refine ⟨List.mem_append_left _ hb, hsb, fun m hm hsm => ?_⟩
        rcases List.mem_append.mp hm with hold | hnew
        · exact hmin m hold hsm
        · rw [List.mem_singleton.mp hnew]
          have hnot := not_or.mp hlt
          omega
  · rename_i hs
    cases best with
    | none =>
      intro m hm
      rcases List.mem_append.mp hm with hold | hnew
      · exact h m hold
      · rw [List.mem_singleton.mp hnew]
        exact hs
    | some b =>
      obtain ⟨hb, hsb, hmin⟩ := h
      refine ⟨List.mem_append_left _ hb, hsb, fun m hm hsm => ?_⟩
      rcases List.mem_append.mp hm with hold | hnew
      · exact hmin m hold hsm
      · rw [List.mem_singleton.mp hnew] at hsm
        exact absurd hsm hs

theorem bestNode_best (nodes : List Node) : BestOf pin bound nodes (bestNode pin nodes bound) := by
  have key : ∀ (nodes seen : List Node) (best : Option Node), BestOf pin bound seen best →
      BestOf pin bound (seen ++ nodes)
        (nodes.foldl (fun best n => if schedulable pin bound n then better bound best n else best) best) := by
    intro nodes
    induction nodes with
    | nil => simp
    | cons n nodes ih =>
      intro seen best h
      have hrest := ih (seen ++ [n]) _ (bestOf_snoc h n)
      rwa [List.append_assoc, List.singleton_append] at hrest
  exact key nodes [] none nofun

theorem schedulable_iff {n : Node} : schedulable pin bound n ↔
    (pin = "" ∨ n.metadata.name = pin) ∧ n.phase = .ready ∧ n.getStatus.unschedulable = false ∧
      (bound.count n.metadata.name : Int) < n.spec.maxInstances := by
  simp [schedulable]

end Best

def refusal (pin : String) : String :=
  if pin = "" then msgNoCapacity else "pinned node " ++ quote pin ++ " is not schedulable"

def boundTo (inst : Instance) (node : String) : Instance :=
  { inst with
    spec.node := node
    status := some { (inst.status.getD { phase := .pending }) with message := "" } }

def bindInstance (inst : Instance) (node : String) : Code (Option String) := do
  match ← put .inst (boundTo inst node) inst.metadata.resourceVersion with
  | .ok _ => pure none
  | .error e => pure (if e.isConflict then none else some e.text)

def explained (inst : Instance) (reason : String) : Instance :=
  { inst with status := some { inst.getStatus with phase := .pending, message := reason } }

def explainPending (inst : Instance) (reason : String) : Code (Option String) :=
  if inst.getStatus.message = reason ∧ inst.phase = .pending then pure none
  else do
    match ← put .inst (explained inst reason) inst.metadata.resourceVersion with
    | .ok _ => pure none
    | .error e => pure (if e.isConflict then none else some e.text)

structure Placement where
  bound : List String
  errs : List String := []

def pinOf (wls : List Workload) (workload : String) : String :=
  -- Later workloads of one name would overwrite earlier ones; names are unique.
  ((wls.find? fun w => w.metadata.name = workload).map (·.spec.nodeName)).getD ""

def placeOne (wls : List Workload) (nodes : List Node) (p : Placement) (inst : Instance) : Code Placement :=
  let pin := pinOf wls inst.spec.workload
  match bestNode pin nodes p.bound with
  | none => do
    let e ← explainPending inst (refusal pin)
    pure { p with errs := p.errs ++ e.toList }
  | some n => do
    match ← bindInstance inst n.metadata.name with
    | some e => pure { p with errs := p.errs ++ [e] }
    -- A lost race counts as a binding too.
    | none => pure { p with bound := n.metadata.name :: p.bound }

def placeListed (insts : List Instance) (nodes : List Node) (wls : List Workload) : Code Placement :=
  (insts.filter fun i => i.spec.node = "").foldlM (placeOne wls nodes)
    { bound := (insts.map (·.spec.node)).filter (· ≠ "") }

def schedulerReconcile : Code Placement := do
  match ← list .inst with
  | .error e => pure { bound := [], errs := [e.text] }
  | .ok (insts, _) =>
    match ← list .node with
    | .error e => pure { bound := [], errs := [e.text] }
    | .ok (nodes, _) =>
      match ← list .workload with
      | .error e => pure { bound := [], errs := [e.text] }
      | .ok (wls, _) => placeListed insts nodes wls

end Klite
