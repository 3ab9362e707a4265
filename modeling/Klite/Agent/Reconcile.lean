import Klite.Agent.Host

/-!
# The reconcile pass (internal/agent/reconcile.go, internal/runtime/docker.go)

`order` is the order in which Go walks the desired map. The loop starts a pass only after
the one before it has ended.
-/

namespace Klite.Agent
open Lib

def call (op : Op) : Code (Res op) := Prog.perform op

def named {α : Type} (what : String) : Except String α → Except String α
  | .ok a => .ok a
  | .error e => .error (what ++ ": " ++ e)

-- docker.go:77
def containerName (node inst : String) : String := "klite." ++ node ++ "." ++ inst

section Runtime
variable (node : String)

def stopInstance (id : ℕ) (grace : Int) : Code (Except String Unit) := do
  pure (named "stop container" (← call (.containerStop id grace)))

def removeInstance (id : ℕ) : Code (Except String Unit) := do
  pure (named "remove container" (← call (.containerRemove id)))

def listInstances : Code (Except String (List RunningInstance)) := do
  pure (named "list containers" (← call .containerList))

def startCreated (name : String) : Created → Code (Except String ℕ)
  | .created id => do
    match ← call (.containerStart id) with
    | .ok _ => pure (.ok id)
    | .error e => pure (.error ("start container " ++ name ++ ": " ++ e))
  | .conflict e | .failed e => pure (.error ("create container " ++ name ++ ": " ++ e))

-- Whatever holds the name is removed.
def createAndStart (inst : Instance) : Code (Except String ℕ) := do
  let name := containerName node inst.metadata.name
  match ← call (.containerCreate inst) with
  | .conflict _ =>
    match ← call (.containerRemoveName inst.metadata.name) with
    | .error e => pure (.error ("remove stale container " ++ name ++ ": " ++ e))
    | .ok _ => do startCreated name (← call (.containerCreate inst))
  | r => startCreated name r

def runInstance (inst : Instance) : Code (Except String ℕ) := do
  match ← call (.createOptions inst) with
  | .error e => pure (.error e)
  | .ok _ => createAndStart node inst

end Runtime

def owns (inst : Instance) (ri : RunningInstance) : Bool :=
  ri.instanceUID = inst.metadata.uid && ri.templateHash = inst.spec.templateHash

abbrev Matched := Std.ExtTreeMap String RunningInstance × List RunningInstance

def matchOne (desired : Desired) (m : Matched) (ri : RunningInstance) : Matched :=
  match desired.map[ri.instanceName]?, m.1[ri.instanceName]? with
  | some inst, none => if owns inst ri then (m.1.insert ri.instanceName ri, m.2) else (m.1, m.2 ++ [ri])
  | _, _ => (m.1, m.2 ++ [ri])

def matchContainers (desired : Desired) (actual : List RunningInstance) : Matched :=
  actual.foldl (matchOne desired) (∅, [])

def backoffStart : Int := second
def backoffCap : Int := 30 * second

def nextBackoff (d : Int) : Int := if d ≤ 0 then backoffStart else min (d * 2) backoffCap

def before (now : Int) : Option Int → Bool
  | none => false
  | some t => now < t

def runningPhase (inst : Instance) : Code InstancePhase := do
  if inst.spec.container.readinessProbe.getD 0 ≤ 0 then pure .ready
  else if ← call (.probeReady inst.metadata.name) then pure .ready
  else pure .running

def failInstance (name : String) (st : InstState) (e : String) : Code (Except String Unit) := do
  let backoff := nextBackoff st.backoff
  let now ← call .now
  call (.putState name
    { st with phase := .failed, message := e, backoff := backoff, nextTry := some (now + backoff) })
  pure (.error e)

section Instance
variable (node : String)

def startInstance (inst : Instance) (st : InstState) : Code (Except String Unit) := do
  let name := inst.metadata.name
  if before (← call .now) st.nextTry then
    call (.putState name st)
    pure (.ok ())
  else match ← call (.ensureImage inst.spec.container.image) with
    | .error e => failInstance name st e
    | .ok _ =>
      match ← runInstance node inst with
      | .error e => failInstance name st e
      | .ok id => do
        let st := if st.awaitingRestart then
          { st with restarts := int32 (st.restarts + 1), awaitingRestart := false } else st
        let phase ← runningPhase inst
        let ip ← call (.inspectIP id)
        call (.putState name { st with phase := phase, containerID := some id, message := "", ip := ip })
        pure (.ok ())

def markRunning (inst : Instance) (ri : RunningInstance) (st : InstState) : Code (Except String Unit) := do
  let phase ← runningPhase inst
  call (.putState inst.metadata.name
    { st with
      awaitingRestart := false
      phase := phase
      containerID := some ri.containerID
      ip := if ri.ip ≠ "" then ri.ip else st.ip
      message := "" })
  pure (.ok ())

-- The first look at a crash only arms the backoff.
def restartInstance (inst : Instance) (ri : RunningInstance) (st : InstState) : Code (Except String Unit) := do
  let name := inst.metadata.name
  if !st.awaitingRestart then
    let backoff := nextBackoff st.backoff
    let now ← call .now
    call (.putState name
      { st with
        awaitingRestart := true
        backoff := backoff
        nextTry := some (now + backoff)
        phase := .failed
        message := "container exited with code " ++ toString ri.exitCode
        containerID := some ri.containerID
        ip := "" })
    pure (.ok ())
  else if before (← call .now) st.nextTry then
    call (.putState name st)
    pure (.ok ())
  else match ← removeInstance ri.containerID with
    | .error e => failInstance name st e
    | .ok _ => startInstance node inst st

def drained (ri : Option RunningInstance) (st : InstState) : InstState :=
  match ri with
  | none => { st with phase := .failed, message := "container gone while draining", containerID := none, ip := "" }
  | some ri =>
    if ri.running then
      { st with
        phase := .draining
        containerID := some ri.containerID
        ip := if ri.ip ≠ "" then ri.ip else st.ip
        message := "" }
    else
      { st with
        phase := .failed
        message := "container exited with code " ++ toString ri.exitCode ++ " while draining"
        containerID := some ri.containerID
        ip := "" }

def observeDraining (inst : Instance) (ri : Option RunningInstance) (st : InstState) : Code (Except String Unit) := do
  call (.putState inst.metadata.name (drained ri st))
  pure (.ok ())

def reconcileInstance (inst : Instance) (ri : Option RunningInstance) : Code (Except String Unit) := do
  let st ← call (.stateFor inst)
  let st := { st with draining := st.draining || inst.phase = .draining }
  if st.draining then observeDraining inst ri st
  else match ri with
    | none => startInstance node inst st
    | some ri => if ri.running then markRunning inst ri st else restartInstance node inst ri st

end Instance

def stopOrphan (ri : RunningInstance) : Code (Except String Unit) :=
  if ri.running then do
    let grace ← call (.rememberedGrace ri.instanceName)
    stopInstance ri.containerID grace
  else pure (.ok ())

def removeOrphan (ri : RunningInstance) : Code (Except String Unit) := do
  match ← stopOrphan ri with
  | .error e => pure (.error e)
  | .ok _ =>
    match ← removeInstance ri.containerID with
    | .error e => pure (.error e)
    | .ok _ => do
      call (.forgetGrace ri.instanceName)
      pure (.ok ())

def note (errs : List String) (what name : String) : Except String Unit → List String
  | .ok _ => errs
  | .error e => errs ++ [what ++ " " ++ name ++ ": " ++ e]

def removeOrphans (orphans : List RunningInstance) : Code (List String) :=
  orphans.foldlM (fun errs ri => do pure (note errs "orphan" ri.instanceName (← removeOrphan ri))) []

section Pass
variable (node : String)

def reconcileNamed (desired : Desired) (byName : Std.ExtTreeMap String RunningInstance) (errs : List String)
    (name : String) : Code (List String) :=
  match desired.map[name]? with
  | some inst => do pure (note errs "instance" name (← reconcileInstance node inst byName[name]?))
  | none => pure errs

-- A pass walks the whole map, in some order.
structure Pass where
  order : List String → List String
  walks : ∀ l, (order l).Perm l

def reconcile (p : Pass) : Code (Except String (List String)) := do
  let desired ← call .snapshotDesired
  match ← listInstances with
  | .error e => pure (.error e)
  | .ok actual => do
    let m := matchContainers desired actual
    let errs ← removeOrphans m.2
    let errs ← (p.order desired.map.keys).foldlM (reconcileNamed node desired m.1) errs
    call (.pruneState desired)
    pure (.ok errs)

def turn (p : Pass) : Code (Except String (List String)) := do
  if ← call .haveSnapshot then reconcile node p else pure (.ok [])

-- reconcileLoop of one agent life. What goes wrong in a pass is only logged.
def reconcileLoop (ps : List Pass) : Code Unit := ps.forM fun p => do
  let _ ← turn node p
  pure ()

end Pass

end Klite.Agent
