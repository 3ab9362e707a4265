import Klite.Controller.Rollout

/-!
# The workload controller (internal/controller/workload.go)

`templateHash` is a parameter: it digests the template's proto encoding. `order`
is the order in which Go walks the map of listed workload names.
-/

namespace Klite
open Lib

structure Hasher where
  templateHash : Template → Except String String

def updateStatus (w : Workload) (hash : String) (insts : List Instance) (p : Progress) : Code Progress :=
  let ready := insts.countP fun inst => inst.phase = .ready ∧ inst.metadata.name ∉ p.touched
  let next : WorkloadStatus :=
    { readyInstances := int32 ready, totalInstances := int32 insts.length,
      templateHash := hash }
  if w.status = some next then pure p
  else do
    match ← put .workload { w with status := some next } w.metadata.resourceVersion with
    | .ok _ => pure p
    | .error e => if e.isConflict then pure p else pure (p.fail e.text)

section Reconcile
variable (hs : Hasher)

def reconcileWorkload (insts : List Instance) (drainingNodes : List String) (p : Progress)
    (w : Workload) : Code Progress :=
  match w.spec.template.containers with
  | [container] =>
    match hs.templateHash w.spec.template with
    | .error e => pure (p.fail ("workload " ++ w.metadata.name ++ ": " ++ e))
    | .ok hash => do
      let mine := insts.filter fun inst => inst.spec.workload = w.metadata.name
      let p ← advance w container hash mine drainingNodes p
      updateStatus w hash mine p
  | _ => pure (p.fail ("workload " ++ w.metadata.name ++ ": template must hold exactly one container"))

def drainingNames (nodes : List Node) : List String :=
  (nodes.filter fun n => n.phase = .draining).map (·.metadata.name)

-- Deadlines of instances that are gone are dropped (workload.go:60).
def pruneDeadlines (insts : List Instance) (d : Deadlines) : Deadlines :=
  d.filter fun uid _ => insts.any fun inst => inst.metadata.uid = uid

-- Instances whose workload is gone get deleted (workload.go:71).
def sweepOrphans (live : List String) (insts : List Instance) (p : Progress) (wname : String) : Code Progress :=
  if wname ∈ live then pure p
  else (insts.filter fun inst => inst.spec.workload = wname).foldlM deleteInstance p

def reconcileListed (order : List String → List String) (wls : List Workload)
    (insts : List Instance) (nodes : List Node) (d : Deadlines) : Code Progress := do
  let p : Progress := { deadlines := pruneDeadlines insts d }
  let p ← wls.foldlM (reconcileWorkload hs insts (drainingNames nodes)) p
  (order (insts.map (·.spec.workload)).dedup).foldlM
    (sweepOrphans (wls.map (·.metadata.name)) insts) p

def workloadReconcile (order : List String → List String) (d : Deadlines) : Code Progress := do
  match ← list .workload with
  | .error e => pure { deadlines := d, errs := [e.text] }
  | .ok (wls, _) =>
    match ← list .inst with
    | .error e => pure { deadlines := d, errs := [e.text] }
    | .ok (insts, _) =>
      match ← list .node with
      | .error e => pure { deadlines := d, errs := [e.text] }
      | .ok (nodes, _) => reconcileListed hs order wls insts nodes d

/- One leader life: passes one after the other, with the deadlines kept between
them. A life is cut short wherever its thread is abandoned. -/
def workloadLife (order : ℕ → List String → List String) : ℕ → Deadlines → Code Unit
  | 0, _ => pure ()
  | n + 1, d => do
    let p ← workloadReconcile hs (order n) d
    workloadLife order n p.deadlines

end Reconcile

end Klite
