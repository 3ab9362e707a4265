import Klite.Server.Auth

/-!
# The node controller (internal/controller/node.go)
-/

namespace Klite
open Lib

def heartbeatTimeout : Int := 15 * second
def evacuateAfter : Int := 30 * second

-- `phaseTransition` (node.go:107); `none` when nothing moves.
def phaseTransition (st : NodeStatus) (silence : Int) (count : ℕ) (pendingDelete : Bool) : Option NodeStatus :=
  if silence > heartbeatTimeout ∧ (st.phase = .ready ∨ st.phase = .draining) then
    some { st with phase := .notReady }
  else if pendingDelete ∧ (st.phase = .ready ∨ !st.unschedulable) then
    some { st with phase := .draining, unschedulable := true }
  else if st.phase = .draining ∧ count = 0 then some { st with phase := .ready }
  else none

-- The status after the transition and the count update (node.go:83-87).
def observedStatus (st : NodeStatus) (silence : Int) (count : ℕ) (pendingDelete : Bool) : NodeStatus :=
  { ((phaseTransition st silence count pendingDelete).getD st) with instanceCount := int32 count }

def silenceOf (st : NodeStatus) : Code Int :=
  if st.lastHeartbeatUnix > 0 then do
    let t ← now
    pure ((t / second - st.lastHeartbeatUnix) * second)
  else pure 0

def evacuateOne (errs : List String) (inst : Instance) : Code (List String) := do
  match ← deleteIfRevision .inst inst.metadata.name inst.metadata.resourceVersion with
  | .ok _ => pure errs
  | .error e => if e.isNotFound ∨ e.isConflict then pure errs else pure (errs ++ [e.text])

def evacuate (node : String) (insts : List Instance) (errs : List String) : Code (List String) :=
  (insts.filter fun inst => inst.spec.node = node).foldlM evacuateOne errs

def removeNode (node : Node) (errs : List String) : Code (List String) := do
  match ← deleteIfRevision .node node.metadata.name node.metadata.resourceVersion with
  | .ok _ => pure errs
  | .error e => if e.isNotFound ∨ e.isConflict then pure errs else pure (errs ++ [e.text])

def evacuateLost (insts : List Instance) (node : Node) (st : NodeStatus) (silence : Int)
    (errs : List String) : Code (List String) :=
  if st.phase = .notReady ∧ silence > heartbeatTimeout + evacuateAfter then
    evacuate node.metadata.name insts errs
  else pure errs

def writeObserved (insts : List Instance) (node : Node) (silence : Int) (count : ℕ)
    (errs : List String) : Code (List String) :=
  let st := node.getStatus
  let st' := observedStatus st silence count node.pendingDelete
  -- Dirty when the transition reports a move, even one that writes back what was there.
  if phaseTransition st silence count node.pendingDelete = none ∧ int32 count = st.instanceCount then
    evacuateLost insts node st' silence errs
  else do
    match ← put .node { node with status := some st' } node.metadata.resourceVersion with
    | .ok _ => evacuateLost insts node st' silence errs
    | .error e =>
      if e.isConflict then evacuateLost insts node st' silence errs else pure (errs ++ [e.text])

def reconcileNode (insts : List Instance) (errs : List String) (node : Node) : Code (List String) :=
  let count := insts.countP fun inst => inst.spec.node = node.metadata.name
  if node.pendingDelete ∧ count = 0 then removeNode node errs
  else do
    let silence ← silenceOf node.getStatus
    writeObserved insts node silence count errs

def nodeReconcile : Code (List String) := do
  match ← list .node with
  | .error e => pure [e.text]
  | .ok (nodes, _) =>
    match ← list .inst with
    | .error e => pure [e.text]
    | .ok (insts, _) => nodes.foldlM (reconcileNode insts) []

end Klite
