import Mathlib.Data.List.Sort
import Klite.Controller.Scheduler

/-!
# One workload's rollout (internal/controller/rollout.go, workload.go)

A pass works on the instances it listed. `retire` writes into the listed object,
and `updateStatus` counts the written-to objects: `touched` names them.
-/

namespace Klite
open Lib

abbrev Deadlines := Std.ExtTreeMap Uid Int

structure Progress where
  deadlines : Deadlines := ∅
  touched : List String := []
  errs : List String := []

def Progress.fail (p : Progress) (e : String) : Progress := { p with errs := p.errs ++ [e] }

-- The order of `sortNewestFirst` (workload.go:118).
def newerFirst (x y : Instance) : Prop :=
  y.metadata.createdUnix < x.metadata.createdUnix ∨
  y.metadata.createdUnix = x.metadata.createdUnix ∧
    (y.metadata.resourceVersion < x.metadata.resourceVersion ∨
    y.metadata.resourceVersion = x.metadata.resourceVersion ∧ y.metadata.name ≤ x.metadata.name)

instance : DecidableRel newerFirst := fun x y => by unfold newerFirst; infer_instance

def sortNewestFirst (insts : List Instance) : List Instance := insts.insertionSort newerFirst

inductive Role where
  | draining
  | fresh
  | retiring
  | doomed
  deriving DecidableEq

section Classify
variable (hash : String) (drainingNodes : List String)

def roleOf (inst : Instance) : Role :=
  if inst.phase = .draining then .draining
  else if inst.spec.templateHash = hash ∧ inst.spec.node ∉ drainingNodes then .fresh
  else if inst.phase = .ready then .retiring
  else .doomed

structure Groups where
  fresh : List Instance
  retiring : List Instance
  doomed : List Instance
  draining : List Instance

def ofRole (r : Role) (insts : List Instance) : List Instance :=
  insts.filter fun inst => roleOf hash drainingNodes inst = r

def classify (insts : List Instance) : Groups where
  fresh := sortNewestFirst (ofRole hash drainingNodes .fresh insts)
  retiring := sortNewestFirst (ofRole hash drainingNodes .retiring insts)
  doomed := ofRole hash drainingNodes .doomed insts
  draining := ofRole hash drainingNodes .draining insts

end Classify

def drainTimeout (inst : Instance) : Int :=
  let s := (inst.spec.drain.getD {}).drainTimeoutSeconds
  (if s > 0 then s else defaultDrainTimeoutSeconds) * second

def deleteInstance (p : Progress) (inst : Instance) : Code Progress := do
  match ← deleteIfRevision .inst inst.metadata.name inst.metadata.resourceVersion with
  | .ok _ => pure p
  | .error e => if e.isNotFound ∨ e.isConflict then pure p else pure (p.fail e.text)

def markedRetired (inst : Instance) (reason : String) : Instance :=
  { inst with status := some { inst.getStatus with phase := .draining, message := reason } }

def retireReady (p : Progress) (inst : Instance) (reason : String) : Code Progress := do
  let p := { p with touched := inst.metadata.name :: p.touched }
  match ← put .inst (markedRetired inst reason) inst.metadata.resourceVersion with
  | .error e => if e.isConflict then pure p else pure (p.fail e.text)
  | .ok _ => do
    let t ← now
    pure { p with deadlines := p.deadlines.insert inst.metadata.uid (t + drainTimeout inst) }

def retire (reason : String) (p : Progress) (inst : Instance) : Code Progress :=
  if inst.phase ≠ .ready then deleteInstance p inst else retireReady p inst reason

def expireDrain (p : Progress) (inst : Instance) : Code Progress :=
  match p.deadlines[inst.metadata.uid]? with
  | none => do
    let t ← now
    pure { p with deadlines := p.deadlines.insert inst.metadata.uid (t + drainTimeout inst) }
  | some deadline => do
    let t ← now
    if t < deadline then pure p else deleteInstance p inst

def newInstance (w : Workload) (container : Container) (hash name : String) : Instance where
  metadata := { name := name, labels := w.spec.template.labels }
  spec := { workload := w.metadata.name, container := container, templateHash := hash,
            drain := w.spec.drain }
  status := some { phase := .pending }

def createLoop (w : Workload) (container : Container) (hash : String) (p : Progress) :
    ℕ → Code Progress
  | 0 => pure (p.fail ("workload " ++ w.metadata.name ++ ": kept colliding on instance names"))
  | n + 1 => do
    let suffix ← hexSuffix
    let inst := newInstance w container hash (w.metadata.name ++ "-" ++ suffix)
    match ← put .inst inst revCreate with
    | .ok _ => pure p
    | .error e =>
      if e.isAlreadyExists then createLoop w container hash p n else pure (p.fail e.text)

def createInstance (w : Workload) (container : Container) (hash : String) (p : Progress) : Code Progress :=
  createLoop w container hash p casRetries

def surgeBlocked (fresh : List Instance) : Bool :=
  fresh.any fun inst => inst.spec.node = "" ∧
    (inst.getStatus.message = msgNoCapacity ∨
      hasPrefix inst.getStatus.message "pinned node ")

def readyCount (insts : List Instance) : ℕ := insts.countP fun inst => inst.phase = .ready

section Advance
variable (w : Workload) (container : Container) (hash : String)

def fallbackReason : String := "drain-first fallback: no capacity to surge"

def rollStep (g : Groups) (victim : Instance) (p : Progress) : Code Progress :=
  let total : Int := g.fresh.length + g.retiring.length
  let ready : Int := readyCount g.fresh
  if total = w.spec.replicas ∧ ready = g.fresh.length then createInstance w container hash p
  else if total > w.spec.replicas ∧ ready ≥ min w.spec.replicas g.fresh.length then
    retire "rollout" p victim
  else if total > w.spec.replicas ∧ surgeBlocked g.fresh then retire fallbackReason p victim
  else pure p

-- The tail of `advance` (rollout.go:65): at most one of surplus, refill and rollout.
def advanceFresh (g : Groups) (p : Progress) : Code Progress :=
  let surplus : Int := g.fresh.length - w.spec.replicas
  let missing : Int := w.spec.replicas - g.fresh.length - g.retiring.length
  if surplus > 0 then
    -- A negative replica count would slice past the list.
    if surplus > g.fresh.length then .crash
    else (g.fresh.take surplus.toNat).foldlM (retire "scale-down") p
  else if missing > 0 then
    (List.range missing.toNat).foldlM (fun p _ => createInstance w container hash p) p
  else match g.retiring with
    | [] => pure p
    | victim :: _ => if g.draining ≠ [] then pure p else rollStep w container hash g victim p

def advance (insts : List Instance) (drainingNodes : List String) (p : Progress) : Code Progress := do
  let g := classify hash drainingNodes insts
  let p ← g.doomed.foldlM deleteInstance p
  let p ← g.draining.foldlM expireDrain p
  advanceFresh w container hash g p

end Advance

end Klite
