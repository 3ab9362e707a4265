import Klite.Controller.Scheduler

/-!
# ClusterService: Drain (internal/server/drain.go)

The poll loop runs until the stream ends; `polls` bounds it, and a drain that
uses it up ends as one whose context is done. `order` is the order in which Go
happens to walk a map: any reordering of the keys, another one for every poll.
-/

namespace Klite
open Lib

structure InstView where
  workload : String
  node : String
  phase : InstancePhase
  message : String
  drainSec : Int
  rev : Int
  deriving DecidableEq

structure Narrator where
  node : String
  first : Bool := true
  prev : Std.ExtTreeMap String InstView := ∅
  workloads : List String := []
  reported : List String := []

def Instance.view (inst : Instance) : InstView where
  workload := inst.spec.workload
  node := inst.spec.node
  phase := inst.phase
  message := inst.getStatus.message
  drainSec := (inst.spec.drain.getD {}).drainTimeoutSeconds
  rev := inst.metadata.resourceVersion

def blockedMessage (msg : String) : Bool := msg = msgNoCapacity || hasPrefix msg "pinned node "

def drainNote (msg : String) : String := if containsText msg "fallback" then " (" ++ msg ++ ")" else ""

def Narrator.lineFor (n : Narrator) (name : String) (v : InstView) : String × Narrator :=
  let old := n.prev[name]?
  if v.node = n.node ∧ v.phase = .draining ∧ old.all (·.phase ≠ v.phase) then
    let sec := if v.drainSec ≤ 0 then defaultDrainTimeoutSeconds else v.drainSec
    ("draining " ++ name ++ " (" ++ toString sec ++ "s)" ++ drainNote v.message, n)
  else if v.node ≠ n.node ∧ v.node ≠ "" ∧ v.workload ∈ n.workloads ∧ old.all (·.node = "") then
    ("surged " ++ name ++ " to " ++ v.node, n)
  else if v.node = "" ∧ v.workload ∈ n.workloads ∧ blockedMessage v.message ∧ name ∉ n.reported then
    ("surge " ++ name ++ " pending: " ++ v.message ++ "; falling back to drain-first (brief dip)",
      { n with reported := name :: n.reported })
  else ("", n)

section Narrate
variable (order : List String → List String)

def Narrator.diffLines (n : Narrator) (cur : Std.ExtTreeMap String InstView) : List String × Narrator :=
  (order cur.keys).foldl (fun acc name =>
    match cur[name]? with
    | none => acc
    | some v =>
      let (line, n') := acc.2.lineFor name v
      (if line = "" then acc.1 else acc.1 ++ [line], n')) ([], n)

def Narrator.goneLines (n : Narrator) (cur : Std.ExtTreeMap String InstView) : List String :=
  (order n.prev.keys).filterMap fun name =>
    match n.prev[name]?, cur[name]? with
    | some old, none => if old.node = n.node then some ("drained " ++ name) else none
    | _, _ => none

def viewsOf (insts : List Instance) : Std.ExtTreeMap String InstView :=
  insts.foldl (fun m inst => m.insert inst.metadata.name inst.view) ∅

def onNode (node : String) (insts : List Instance) : List Instance :=
  insts.filter fun inst => inst.spec.node = node

/- `observe` (drain.go:149): the new listing replaces the remembered one. -/
def Narrator.observe (n : Narrator) (insts : List Instance) : Narrator × List String × ℕ :=
  let cur := viewsOf insts
  let here := onNode n.node insts
  let n := { n with workloads := here.map (fun (i : Instance) => i.spec.workload) ++ n.workloads }
  if n.first then
    ({ n with first := false, prev := cur },
      if here.length > 0 then
        ["draining " ++ toString here.length ++ " instance(s) on " ++ n.node] else [],
      here.length)
  else
    let (lines, n') := n.diffLines order cur
    ({ n' with prev := cur }, lines ++ n.goneLines order cur, here.length)

-- One round of the loop in `forceDelete` (drain.go:113).
def forceDeleteOne (acc : Narrator × List String) (name : String) : Code (Narrator × List String) :=
  match acc.1.prev[name]? with
  | none => pure acc
  | some v =>
    if v.node ≠ acc.1.node ∨ v.phase ≠ .draining then pure acc
    else do
      match ← deleteIfRevision .inst name v.rev with
      | .error _ => pure acc
      | .ok _ =>
        pure ({ acc.1 with prev := acc.1.prev.erase name }, acc.2 ++ ["force-removed " ++ name])

def forceDelete (n : Narrator) : Code (Narrator × List String) :=
  (order n.prev.keys).foldlM forceDeleteOne (n, [])

end Narrate

def markedDraining (node : Node) : Node :=
  node.withStatus fun st => { st with unschedulable := true, phase := .draining }

def judgeDraining (node : Node) : Code (Verdict .node (Option Status)) :=
  if node.getStatus.unschedulable ∧ node.phase = .draining then pure (.done none)
  else pure (.write (markedDraining node) none)

def markNodeDraining (name : String) : Code (Option Status) :=
  casLoop .node name judgeDraining (fun e => some (storeStatus e)) (some raced) casRetries

def streamDone : Status := ⟨.canceled, "context canceled"⟩

-- False once the stream is broken.
def sendAll : List String → Code Bool
  | [] => pure true
  | l :: ls => do
    match ← send l with
    | true => sendAll ls
    | false => pure false

def forcePass (force : Bool) (order : List String → List String) (n : Narrator) : Code (Narrator × List String) :=
  if force then forceDelete order n else pure (n, [])

section Drain
variable (node : String) (force : Bool) (order : ℕ → List String → List String)

-- The end of one round: done, or the phase is asserted again before the next poll.
def drainRest (remaining : ℕ) (again : Code (Except Status Unit)) : Code (Except Status Unit) :=
  if remaining = 0 then do
    match ← send ("done: " ++ node ++ " drained") with
    | true => pure (.ok ())
    | false => pure (.error streamDone)
  else do
    match ← markNodeDraining node with
    | some e => pure (.error e)
    | none =>
      match ← pause with
      | true => again
      | false => pure (.error streamDone)

def drainLoop : ℕ → Narrator → Code (Except Status Unit)
  | 0, _ => pure (.error streamDone)
  | polls + 1, n => do
    match ← list .inst with
    | .error e => pure (.error (storeStatus e))
    | .ok (insts, _) =>
      let seen := n.observe (order polls) insts
      let forced ← forcePass force (order polls) seen.1
      match ← sendAll (seen.2.1 ++ forced.2) with
      | false => pure (.error streamDone)
      | true => drainRest node seen.2.2 (drainLoop polls forced.1)

def drain (polls : ℕ) : Code (Except Status Unit) :=
  if node = "" then pure (.error ⟨.invalidArgument, "node name is required"⟩)
  else do
    match ← markNodeDraining node with
    | some e => pure (.error e)
    | none =>
      match ← send ("cordoned " ++ node) with
      | false => pure (.error streamDone)
      | true => drainLoop node force order polls { node := node }

end Drain

end Klite
