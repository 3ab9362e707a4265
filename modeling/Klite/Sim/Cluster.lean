import Mathlib.Algebra.Order.BigOperators.Group.List
import Klite.Sim.Objects

/-!
# The browser's simulator (frontend/app/sim/cluster.ts)

An object the code holds is the one its map has under the object's name, as long as the map
has the name: no function keeps an object across a `set` of its name, and the closures of
the timers look their object up again. So a write through a reference is a write to the
entry if it is there, and to nothing that the cluster still knows if it is not. What the
code loops over is not added to or removed from while the loop runs, apart from the entry
at hand.

An exception leaves the cluster as it was when it was thrown. A watcher is the store whose
`applyEvent` is called. Logs and traffic change no object and are left out.
-/

namespace Klite.Sim
open Lib

/-- The backoff list is never empty, and its last entry is used for every later restart. -/
structure SimTimings where
  containerStartMs : ℚ
  probeMs : ℚ
  infraStartMs : ℚ
  heartbeatMs : ℚ
  missedHeartbeatsForNotReady : ℚ
  rescheduleGraceMs : ℚ
  drainTimeoutMs : ℚ
  terminationGraceMs : ℚ
  restartBackoffMs : List ℚ
  restartBackoffMs_ne : restartBackoffMs ≠ []
  backoffResetAfterMs : ℚ

/-- `DEFAULT_TIMINGS` (timings.ts:19). -/
def defaultTimings : SimTimings where
  containerStartMs := 400
  probeMs := 1500
  infraStartMs := 1000
  heartbeatMs := 1000
  missedHeartbeatsForNotReady := 5
  rescheduleGraceMs := 8000
  drainTimeoutMs := 4000
  terminationGraceMs := 2000
  restartBackoffMs := [500, 1000, 2000, 4000]
  restartBackoffMs_ne := List.cons_ne_nil _ _
  backoffResetAfterMs := 60000

/-- What a timer runs. -/
inductive Job where
  | infraUp (name : String)
  | restart (name : String)
  | reschedule (name : String)
  | containerStarted (name : String)
  | becomeReady (name : String)
  | terminate (name : String) (graceMs : ℚ)
  | deleteInstance (name : String)

structure Task where
  due : ℚ
  key : String
  run : Job

structure AgentState where
  alive : Bool
  lastBeat : ℚ
  infraReadyAt : ℚ

structure InstanceMeta where
  evacuating : Bool := false
  scalingDown : Bool := false
  backoffCount : ℕ := 0
  lastHealthyAt : ℚ

/-! ### Addresses (frontend/app/sim/ipam.ts) -/

structure Ipam where
  nextInstance : ℕ := 0
  nextVip : ℕ := 0
  nodeIndex : JsMap ℕ := {}
  ingressSlots : JsMap ℕ := {}

namespace Ipam

def address (base n : ℕ) : String := "10.44." ++ toString (base + n / 254) ++ "." ++ toString (n % 254 + 2)

def instanceIp (p : Ipam) : String × Ipam := (address 128 p.nextInstance, { p with nextInstance := p.nextInstance + 1 })

-- An address that is there is kept.
def addressOf (p : Ipam) : Option String → String × Ipam
  | some ip => (ip, p)
  | none => p.instanceIp

def vip (p : Ipam) : String × Ipam := (address 64 p.nextVip, { p with nextVip := p.nextVip + 1 })

def indexOf (p : Ipam) (node : String) : ℕ × Ipam :=
  match p.nodeIndex.get node with
  | some i => (i, p)
  | none =>
    let i := p.nodeIndex.entries.length + 1
    (i, { p with nodeIndex := p.nodeIndex.set node i })

def ingressPort (p : Ipam) (node : String) : Int × Ipam :=
  let used := (p.ingressSlots.get node).getD 0
  let p := { p with ingressSlots := p.ingressSlots.set node (used + 1) }
  let (i, p) := p.indexOf node
  (30000 + ((i : Int) - 1) * 512 + used, p)

end Ipam

/-! ### The cluster -/

structure Cluster where
  now : ℚ := 0
  rev : Int := 0
  objects : (k : Kind) → Shelf k := fun _ => {}
  tasks : List Task := []
  agents : JsMap AgentState := {}
  instMeta : JsMap InstanceMeta := {}
  seq : JsMap ℕ := {}
  removingNodes : List String := []
  lastSweepBeat : ℚ := 0
  ipam : Ipam := {}
  watchers : List Snapshot := []

namespace Cluster

section Objects
variable (s : Cluster) {k : Kind}

def get (k : Kind) (name : String) : Option (Obj k) := (s.objects k).get name

def set (o : Obj k) : Cluster := { s with objects := Function.update s.objects k ((s.objects k).set o) }

def delete (k : Kind) (name : String) : Cluster :=
  { s with objects := Function.update s.objects k ((s.objects k).delete name) }

/-- The fields of an object are assigned. -/
def write (o : Obj k) : Cluster := { s with objects := Function.update s.objects k ((s.objects k).replace o) }

/-- `emit` (cluster.ts:153). The revision is assigned to the object, and the event carries a clone of it. -/
def emit (type : EventType) (o : Obj k) : Cluster :=
  let rev := s.rev + 1
  let o := o.withRevision rev
  let s := s.write o
  { s with rev := rev, watchers := s.watchers.map (·.applyEvent (.change type rev k o)) }

def kinds : List Kind :=
  [.workload, .service, .node, .networkPolicy, .inst, .vipAllocation, .ingressAllocation]

/-- What a new watcher is called with before it is added. -/
def replay : List WatchEvent :=
  (kinds.flatMap fun k => (s.objects k).values.map fun o => .change .added s.rev k o) ++ [.sync s.rev]

/-- `subscribe` (cluster.ts:160), by a store that has seen nothing yet. -/
def subscribe : Cluster := { s with watchers := s.watchers ++ [s.replay.foldl Snapshot.applyEvent {}] }

end Objects

section Helpers
variable (s : Cluster)

def after (ms : ℚ) (key : String) (run : Job) : Cluster :=
  { s with tasks := s.tasks.filter (·.key ≠ key) ++ [⟨s.now + ms, key, run⟩] }

def cancel (key : String) : Cluster := { s with tasks := s.tasks.filter (·.key ≠ key) }

def instancesOn (node : String) : List (Obj .inst) :=
  (s.objects .inst).values.filter fun i => i.body.spec.node = some node

def instancesOf (workload : String) : List (Obj .inst) :=
  (s.objects .inst).values.filter fun i => i.body.spec.workload = workload

def simUnix : Int := 1756600000 + ⌊s.now / 1000⌋

def metaOf (name : String) : InstanceMeta × Cluster :=
  match s.instMeta.get name with
  | some m => (m, s)
  | none =>
    let m := { lastHealthyAt := s.now }
    (m, { s with instMeta := s.instMeta.set name m })

def setMeta (name : String) (m : InstanceMeta) : Cluster := { s with instMeta := s.instMeta.set name m }

end Helpers

/-! ### Controllers -/

-- Splits at the last dot.
def pairOf (name : String) : String × String :=
  let back := name.toList.reverse
  (String.ofList ((back.dropWhile (· ≠ '.')).drop 1).reverse, String.ofList (back.takeWhile (· ≠ '.')).reverse)

section Allocations
variable (s : Cluster)

def createVip (name : String) : Cluster :=
  if (s.objects .vipAllocation).has name then s
  else
    let (vip, ipam) := s.ipam.vip
    let alloc : Obj .vipAllocation :=
      ⟨{ name := name, createdUnix := some s.simUnix }, { service := (pairOf name).1, node := (pairOf name).2, vip := vip }⟩
    let s := { s with ipam := ipam }
    let s := s.set alloc
    s.emit .added alloc

def reconcileVipAllocations : Cluster :=
  let want := ((s.objects .service).keys.flatMap fun svc => (s.objects .node).keys.map fun node => svc ++ "." ++ node).eraseDups
  let s := (s.objects .vipAllocation).values.foldl (fun s o =>
    if o.name ∈ want then s else (s.delete .vipAllocation o.name).emit .deleted o) s
  want.foldl createVip s

/-- What an ingress allocation is wanted for: a service and one of its instances, by the allocation's name. -/
def wantedIngress : JsMap (String × Obj .inst) :=
  ((s.objects .service).values.flatMap fun svc => (s.objects .inst).values.filterMap fun inst =>
    if inst.body.spec.node.getD "" = "" ∨ inst.body.status.instanceIp.getD "" = "" then none
    else if selectorMatches svc.body.selector inst.metadata.labels then
      some (svc.name ++ "." ++ inst.name, svc.name, inst)
    else none).foldl (fun m e => m.set e.1 e.2) {}

def createIngress (e : String × String × Obj .inst) : Cluster :=
  if (s.objects .ingressAllocation).has e.1 then s
  else
    match e.2.2.body.spec.node with
    | none => s
    | some node =>
      if node = "" then s
      else
        let (port, ipam) := s.ipam.ingressPort node
        let alloc : Obj .ingressAllocation :=
          ⟨{ name := e.1, createdUnix := some s.simUnix }, { service := e.2.1, inst := e.2.2.name, node := node, port := port }⟩
        let s := { s with ipam := ipam }
        let s := s.set alloc
        s.emit .added alloc

def reconcileIngressAllocations : Cluster :=
  let want := s.wantedIngress
  let s := (s.objects .ingressAllocation).values.foldl (fun s o =>
    if want.has o.name then s else (s.delete .ingressAllocation o.name).emit .deleted o) s
  want.entries.foldl createIngress s

end Allocations

end Cluster

def Obj.withStatus (o : Obj .inst) (f : InstanceStatus → InstanceStatus) : Obj .inst :=
  { o with body := { o.body with status := f o.body.status } }

def Obj.withNodeStatus (o : Obj .node) (st : NodeStatus) : Obj .node :=
  { o with body := { o.body with status := some st } }

abbrev Obj.phase (o : Obj .inst) : InstancePhase := o.body.status.phase

-- A duration of zero or less counts as none.
def secondsToMs (seconds : Option ℚ) : Option ℚ := (seconds.filter fun x => 0 < x).map (· * 1000)

/-- What `pickNode` asks of a node that has `count` instances. -/
def schedulable (pin : Option String) (count : ℕ) (n : Obj .node) : Bool :=
  (pin.getD "" = "" ∨ pin = some n.name) &&
    n.body.status.any fun st =>
      st.phase = .ready && !st.unschedulable.getD false && st.infra.any (·.ready) && count < n.body.maxInstances

/-- `pickNode` (scheduler.ts:11). How names compare is the locale's. -/
def pickNode (localeLe : String → String → Bool) (pin : Option String) (nodes : List (Obj .node)) (placed : List (Obj .inst)) :
    Option String :=
  let count (name : String) : ℕ :=
    (placed.filter fun i => i.body.spec.node = some name ∧ name ≠ "" ∧ i.phase ≠ .terminating).length
  let candidates := (nodes.filter fun n => schedulable pin (count n.name) n).map (·.name)
  (candidates.mergeSort fun a b => count a < count b ∨ (count a = count b ∧ localeLe a b)).head?

-- The number at the end of an instance's name, which `createInstance` put there.
def seqOf (inst : Obj .inst) : ℕ := (parseDigits (inst.name.toList.reverse.takeWhile (· ≠ '-')).reverse).getD 0

namespace Cluster

section Lifecycle
variable (t : SimTimings) (s : Cluster)

def createInstance (wl : Obj .workload) : Cluster :=
  let n := (s.seq.get wl.name).getD 0 + 1
  let s := { s with seq := s.seq.set wl.name n }
  let name := wl.name ++ "-" ++ toString n
  let inst : Obj .inst :=
    { metadata := { name := name, labels := some wl.body.spec.template.labels, createdUnix := some s.simUnix }
      body :=
        { spec := { workload := wl.name, container := wl.body.spec.template.containers.head? }
          status := { phase := .pending, restarts := 0 } } }
  let s := s.setMeta name { lastHealthyAt := s.now }
  let s := s.set inst
  s.emit .added inst

def deleteInstance (name : String) : Cluster :=
  match s.get .inst name with
  | none => s
  | some inst =>
    let s := s.delete .inst name
    let s := { s with instMeta := s.instMeta.delete name }
    let s := s.cancel ("restart:" ++ name)
    let s := s.cancel ("lifecycle:" ++ name)
    s.emit .deleted inst

def startDrainOut (name : String) (wl : Option (Obj .workload)) : Cluster :=
  match s.get .inst name with
  | none => s
  | some inst =>
    if inst.phase = .draining ∨ inst.phase = .terminating then s
    else
      let (m, s) := s.metaOf name
      let s := s.setMeta name { m with evacuating := false }
      let inst := inst.withStatus fun st => { st with phase := .draining }
      let s := s.write inst
      let s := s.emit .modified inst
      let drain := wl.bind fun wl => wl.body.spec.drain
      let drainMs := (secondsToMs (drain.bind (·.drainTimeoutSeconds))).getD t.drainTimeoutMs
      let graceMs := (secondsToMs (drain.bind (·.terminationGraceSeconds))).getD t.terminationGraceMs
      s.after drainMs ("lifecycle:" ++ name) (.terminate name graceMs)

-- What `startDrainOut` leaves to a timer.
def terminate (name : String) (graceMs : ℚ) : Cluster :=
  match s.get .inst name with
  | none => s
  | some inst =>
    let inst := inst.withStatus fun st => { st with phase := .terminating }
    let s := s.write inst
    let s := s.emit .modified inst
    s.after graceMs ("lifecycle:" ++ name) (.deleteInstance name)

-- A container that is undefined has no probe to ask for.
def probeAfter (name : String) (inst : Obj .inst) : Except Cluster Cluster :=
  match inst.body.spec.container with
  | none => .error s
  | some c => .ok (s.after (if c.readinessProbe.isSome then t.probeMs else 0) ("lifecycle:" ++ name) (.becomeReady name))

def containerStarted (name : String) : Except Cluster Cluster :=
  match s.get .inst name with
  | none => .ok s
  | some inst =>
    if inst.phase ≠ .pending then .ok s
    else
      let (ip, ipam) := s.ipam.addressOf inst.body.status.instanceIp
      let s := { s with ipam := ipam }
      let inst := inst.withStatus fun st => { st with phase := .running, instanceIp := some ip, message := none }
      let s := s.write inst
      let s := s.emit .modified inst
      s.probeAfter t name inst

def becomeReady (name : String) : Except Cluster Cluster :=
  match s.get .inst name with
  | none => .ok s
  | some inst =>
    if inst.phase ≠ .running then .ok s
    else
      let inst := inst.withStatus fun st => { st with phase := .ready }
      let s := s.write inst
      let (m, s) := s.metaOf name
      let s := s.setMeta name { m with lastHealthyAt := s.now }
      let s := s.emit .modified inst
      if inst.body.spec.container.isNone then .error s else .ok s

def restart (name : String) : Except Cluster Cluster :=
  match s.get .inst name with
  | none => .ok s
  | some inst =>
    if inst.phase = .terminating then .ok s
    else
      let (m, s) := s.metaOf name
      if m.scalingDown ∨ m.evacuating then .ok (s.startDrainOut t name (s.get .workload inst.body.spec.workload))
      else
        match s.get .node (inst.body.spec.node.getD "") with
        | none => .ok s
        | some node =>
          if node.body.status.any (·.phase = .notReady) then .ok s
          else
            let inst := inst.withStatus fun st =>
              { st with phase := .running, restarts := st.restarts + 1, message := none }
            let s := s.write inst
            let s := s.emit .modified inst
            s.probeAfter t name inst

def killInstance (name : String) : Cluster :=
  match s.get .inst name with
  | none => s
  | some inst =>
    if inst.phase ≠ .running ∧ inst.phase ≠ .ready then s
    else
      let (m, s) := s.metaOf name
      let m := if s.now - m.lastHealthyAt > t.backoffResetAfterMs then { m with backoffCount := 0 } else m
      let inst := inst.withStatus fun st => { st with phase := .failed, message := some "killed" }
      let s := s.write inst
      let s := s.emit .modified inst
      let backoff := (t.restartBackoffMs[m.backoffCount]?).getD (t.restartBackoffMs.getLast t.restartBackoffMs_ne)
      let s := s.setMeta name { m with backoffCount := m.backoffCount + 1 }
      s.after backoff ("restart:" ++ name) (.restart name)

def infraUp (name : String) : Cluster :=
  match s.get .node name with
  | none => s
  | some node =>
    let (i, ipam) := s.ipam.indexOf name
    let base := node.body.status.getD { phase := .ready, instanceCount := 0 }
    let node := node.withNodeStatus { base with
      phase := .ready
      instanceCount := (s.instancesOn name).length
      nodeIndex := some i
      advertiseAddress := some ("198.51.100." ++ toString i)
      infra := some { ip := "10.44.0." ++ toString (10 + i), ready := true } }
    let s := { s with ipam := ipam }
    let s := s.write node
    s.emit .modified node

def cordonAndDrain (name : String) : Cluster :=
  match s.get .node name with
  | none => s
  | some node =>
    match node.body.status with
    | none => s
    | some st =>
      let node := node.withNodeStatus { st with unschedulable := some true, phase := .draining }
      let s := s.write node
      let s := s.emit .modified node
      (s.instancesOn name).foldl (fun s inst =>
        let (m, s) := s.metaOf inst.name
        s.setMeta inst.name { m with evacuating := true }) s

/-! ### The sweep over the nodes -/

-- The instance's container is gone with the node.
def loseInstance (name : String) : Cluster :=
  match s.get .inst name with
  | none => s
  | some inst =>
    if inst.phase = .draining ∨ inst.phase = .terminating then s.deleteInstance name
    else
      let inst := inst.withStatus fun st => { st with phase := .failed, message := some "node-lost" }
      let s := s.write inst
      let s := s.cancel ("restart:" ++ name)
      let s := s.cancel ("lifecycle:" ++ name)
      s.emit .modified inst

def revive (name : String) : Except Cluster Cluster :=
  if (s.get .inst name).any fun i => i.body.status.message = some "node-lost" then s.restart t name else .ok s

/-- The agent came back: the node serves again, or drains on. -/
def comeBack (name : String) (node : Obj .node) (st : NodeStatus) : Except Cluster (Obj .node × Cluster) := do
  let node := node.withNodeStatus { st with phase := if st.unschedulable.getD false then .draining else .ready }
  let s := s.write node
  let s := s.emit .modified node
  let node := node.withRevision s.rev
  let s := s.cancel ("reschedule:" ++ name)
  let s ← (s.instancesOn name).foldlM (fun s inst => s.revive t inst.name) s
  return (node, s)

/-- The agent is gone, and so are the node's containers. -/
def goDown (name : String) (node : Obj .node) (st : NodeStatus) : Obj .node × Cluster :=
  let node := node.withNodeStatus { st with phase := .notReady }
  let s := s.write node
  let s := s.emit .modified node
  let node := node.withRevision s.rev
  let s := (s.instancesOn name).foldl (fun s inst => s.loseInstance inst.name) s
  (node, s.after t.rescheduleGraceMs ("reschedule:" ++ name) (.reschedule name))

/-- The heartbeat of a node, with the node as it is afterwards. -/
def beat (name : String) (agent : AgentState) (node : Obj .node) (st : NodeStatus) : Except Cluster (Obj .node × Cluster) :=
  if agent.alive then
    let s := { s with agents := s.agents.set name { agent with lastBeat := s.now } }
    if st.phase = .notReady then s.comeBack t name node st else .ok (node, s)
  else if st.phase ≠ .notReady ∧ s.now - agent.lastBeat ≥ t.heartbeatMs * t.missedHeartbeatsForNotReady then
    .ok (s.goDown t name node st)
  else .ok (node, s)

-- The closure of the timer that `goDown` sets.
def reschedule (name : String) : Cluster :=
  if (s.get .node name).any fun n => n.body.status.any (·.phase = .notReady) then
    (s.instancesOn name).foldl (fun s inst => s.deleteInstance inst.name) s
  else s

def recount (name : String) (node : Obj .node) : Cluster :=
  match node.body.status with
  | none => s
  | some st =>
    let count : Int := (s.instancesOn name).length
    if st.instanceCount ≠ count then
      let node := node.withNodeStatus { st with instanceCount := count }
      let s := s.write node
      s.emit .modified node
    else s

/-- What follows the heartbeat. A node that is removed is not looked at any further. -/
def settle (name : String) (node : Obj .node) : Cluster :=
  if (s.instancesOn name).isEmpty then
    if name ∈ s.removingNodes then
      let s := { s with removingNodes := s.removingNodes.filter (· ≠ name), agents := s.agents.delete name }
      let s := s.delete .node name
      let s := s.emit .deleted node
      s.reconcileVipAllocations
    else
      match node.body.status with
      | none => s.recount name node
      | some st =>
        if st.phase = .draining then
          let node := node.withNodeStatus { st with phase := .ready }
          let s := s.write node
          let s := s.emit .modified node
          s.recount name (node.withRevision s.rev)
        else s.recount name node
  else s.recount name node

def nodeStep (name : String) : Except Cluster Cluster :=
  match s.agents.get name, s.get .node name with
  | some agent, some node =>
    match node.body.status with
    | none => .ok s
    | some st => do
      let (node, s) ← s.beat t name agent node st
      return s.settle name node
  | _, _ => .ok s

def nodeLifecycle : Except Cluster Cluster := s.agents.keys.foldlM (fun s name => s.nodeStep t name) s

/-! ### Workloads and scheduling -/

def serves (inst : Obj .inst) : Bool :=
  let m := (s.metaOf inst.name).1
  !m.evacuating ∧ !m.scalingDown ∧ inst.phase ≠ .terminating ∧ inst.phase ≠ .draining

def scaleDown (wl : Option (Obj .workload)) (name : String) : Cluster :=
  let (m, s) := s.metaOf name
  let s := s.setMeta name { m with scalingDown := true }
  s.startDrainOut t name wl

def reconcileWorkload (wl : Obj .workload) : Cluster :=
  let all := s.instancesOf wl.name
  let serving := all.filter s.serves
  let s := all.foldl (fun s inst => (s.metaOf inst.name).2) s
  let missing := (wl.body.spec.replicas - serving.length).toNat
  let s := (List.range missing).foldl (fun s _ => s.createInstance wl) s
  let extras := (serving.length - wl.body.spec.replicas).toNat
  let victims := (serving.mergeSort fun a b => seqOf b ≤ seqOf a).take extras
  let s := victims.foldl (fun s v => s.scaleDown t (some wl) v.name) s
  -- The phases are read again: the victims have left the ready ones.
  let ready (inst : Obj .inst) : Bool := (s.get .inst inst.name).any (·.phase = .ready)
  if wl.body.spec.replicas ≤ (serving.filter ready).length then
    match all.find? fun i => (s.metaOf i.name).1.evacuating ∧ ready i with
    | some evacuee => s.startDrainOut t evacuee.name (some wl)
    | none => s
  else s

def drainOrphan (name : String) : Cluster :=
  match s.get .inst name with
  | none => s
  | some inst =>
    if (s.objects .workload).has inst.body.spec.workload then s
    else
      let (m, s) := s.metaOf name
      if !m.scalingDown ∧ inst.phase ≠ .terminating then s.scaleDown t none name else s

def reconcileWorkloads : Cluster :=
  let s := (s.objects .workload).values.foldl (fun s wl => s.reconcileWorkload t wl) s
  (s.objects .inst).keys.foldl (fun s name => s.drainOrphan t name) s

def scheduleOne (localeLe : String → String → Bool) (name : String) : Cluster :=
  match s.get .inst name with
  | none => s
  | some inst =>
    if inst.body.spec.node.getD "" ≠ "" ∨ inst.phase ≠ .pending then s
    else
      let pin := (s.get .workload inst.body.spec.workload).bind fun wl => wl.body.spec.nodeName
      match pickNode localeLe pin (s.objects .node).values (s.objects .inst).values with
      | none => s
      | some chosen =>
        if chosen = "" then s
        else
          let inst : Obj .inst := { inst with body := { inst.body with spec := { inst.body.spec with node := some chosen } } }
          let s := s.write inst
          let s := s.emit .modified inst
          s.after t.containerStartMs ("lifecycle:" ++ inst.name) (.containerStarted inst.name)

def schedule (localeLe : String → String → Bool) : Cluster :=
  (s.objects .inst).keys.foldl (fun s name => s.scheduleOne t localeLe name) s

def runJob : Job → Except Cluster Cluster
  | .infraUp name => .ok (s.infraUp name)
  | .restart name => s.restart t name
  | .reschedule name => .ok (s.reschedule name)
  | .containerStarted name => s.containerStarted t name
  | .becomeReady name => s.becomeReady name
  | .terminate name graceMs => .ok (s.terminate name graceMs)
  | .deleteInstance name => .ok (s.deleteInstance name)

end Lifecycle

/-! ### Time

A timer may set another one that is due at once, so the loop over the due timers ends only
because each timer sets less than it was: a restart may set a termination, a termination
sets a deletion, and what becomes ready or is deleted sets nothing.
-/

def weight : Job → ℕ
  | .restart _ => 3
  | .terminate _ _ => 2
  | .containerStarted _ => 2
  | _ => 1

def load (s : Cluster) : ℕ := (s.tasks.map fun task => weight task.run).sum

section Load
variable {s : Cluster} {k : Kind} (o : Obj k)

theorem load_write : (s.write o).load = s.load := rfl

theorem load_emit (type : EventType) : (s.emit type o).load = s.load := rfl

theorem load_setMeta (name : String) (m : InstanceMeta) : (s.setMeta name m).load = s.load := rfl

theorem load_metaOf (name : String) : (s.metaOf name).2.load = s.load := by
  unfold metaOf
  split <;> rfl

theorem load_cancel (key : String) : (s.cancel key).load ≤ s.load :=
  (List.filter_sublist.map _).sum_le_sum fun _ _ => Nat.zero_le _

theorem load_after (ms : ℚ) (key : String) (run : Job) : (s.after ms key run).load ≤ s.load + weight run := by
  have hcancel : ((s.tasks.filter (·.key ≠ key)).map fun task => weight task.run).sum ≤ s.load := load_cancel key
  unfold load after
  rw [List.map_append, List.sum_append]
  exact Nat.add_le_add_right hcancel _

variable {t : SimTimings} {s' : Cluster}

theorem load_probeAfter {name : String} {inst : Obj .inst} (h : s.probeAfter t name inst = .ok s') : s'.load ≤ s.load + 1 := by
  unfold probeAfter at h
  split at h
  · cases h
  · cases h
    exact load_after _ _ _

theorem load_startDrainOut (name : String) (wl : Option (Obj .workload)) : (s.startDrainOut t name wl).load ≤ s.load + 2 := by
  unfold startDrainOut
  split
  · exact Nat.le_add_right _ _
  · split
    · exact Nat.le_add_right _ _
    · exact (load_after _ _ _).trans (Nat.add_le_add_right (load_metaOf name).le _)

theorem load_deleteInstance (name : String) : (s.deleteInstance name).load ≤ s.load := by
  unfold deleteInstance
  split
  · exact Nat.le_refl _
  · exact (load_cancel _).trans (load_cancel _)

theorem load_terminate (name : String) (graceMs : ℚ) : (s.terminate name graceMs).load ≤ s.load + 1 := by
  unfold terminate
  split
  · exact Nat.le_add_right _ _
  · exact load_after _ _ _

theorem load_infraUp (name : String) : (s.infraUp name).load = s.load := by
  unfold infraUp
  split <;> rfl

theorem load_reschedule (name : String) : (s.reschedule name).load ≤ s.load := by
  have hall (l : List (Obj .inst)) (s : Cluster) : (l.foldl (fun s inst => s.deleteInstance inst.name) s).load ≤ s.load := by
    induction l generalizing s with
    | nil => exact Nat.le_refl _
    | cons inst l ih => exact (ih _).trans (load_deleteInstance _)
  unfold reschedule
  split
  · exact hall _ s
  · exact Nat.le_refl _

theorem load_containerStarted {name : String} (h : s.containerStarted t name = .ok s') : s'.load ≤ s.load + 1 := by
  unfold containerStarted at h
  split at h
  · cases h
    exact Nat.le_add_right _ _
  · split at h
    · cases h
      exact Nat.le_add_right _ _
    · have hprobe := load_probeAfter h
      rw [load_emit, load_write] at hprobe
      exact hprobe

theorem load_becomeReady {name : String} (h : s.becomeReady name = .ok s') : s'.load = s.load := by
  unfold becomeReady at h
  split at h
  · cases h
    rfl
  · split at h
    · cases h
      rfl
    · dsimp only at h
      split at h
      · cases h
      · cases h
        rw [load_emit, load_setMeta, load_metaOf, load_write]

theorem load_restart {name : String} (h : s.restart t name = .ok s') : s'.load ≤ s.load + 2 := by
  unfold restart at h
  split at h
  · cases h
    exact Nat.le_add_right _ _
  · split at h
    · cases h
      exact Nat.le_add_right _ _
    · have hmeta : (s.metaOf name).2.load = s.load := load_metaOf name
      dsimp only at h
      split at h
      · cases h
        rw [← hmeta]
        exact load_startDrainOut _ _
      · split at h
        · cases h
          rw [hmeta]
          exact Nat.le_add_right _ _
        · split at h
          · cases h
            rw [hmeta]
            exact Nat.le_add_right _ _
          · have hprobe := load_probeAfter h
            rw [load_emit, load_write, hmeta] at hprobe
            exact hprobe.trans (Nat.le_succ _)

theorem load_runJob {job : Job} (h : s.runJob t job = .ok s') : s'.load < s.load + weight job := by
  cases job with
  | infraUp name =>
    cases h
    rw [load_infraUp]
    exact Nat.lt_succ_self _
  | restart name => exact Nat.lt_succ_of_le (load_restart h)
  | reschedule name =>
    cases h
    exact Nat.lt_succ_of_le (load_reschedule name)
  | containerStarted name => exact Nat.lt_succ_of_le (load_containerStarted h)
  | becomeReady name =>
    rw [load_becomeReady h]
    exact Nat.lt_succ_self _
  | terminate name graceMs =>
    cases h
    exact Nat.lt_succ_of_le (load_terminate name graceMs)
  | deleteInstance name =>
    cases h
    exact Nat.lt_succ_of_le (load_deleteInstance name)

end Load

section Time
variable (t : SimTimings) (localeLe : String → String → Bool) (s : Cluster)

set_option linter.unusedVariables false in
/-- The loop over the due timers. What a timer sets goes to the end of the list. -/
def runDue (s : Cluster) : Except Cluster Cluster :=
  match ht : s.tasks with
  | [] => .ok s
  | task :: rest =>
    if task.due ≤ s.now then
      match hj : ({ s with tasks := rest } : Cluster).runJob t task.run with
      | .error s' => .error s'
      | .ok s' => runDue s'
    else .ok s
termination_by s.load
decreasing_by
  refine (load_runJob hj).trans_le ?_
  unfold load
  rw [ht, List.map_cons, List.sum_cons, Nat.add_comm]

def heartbeat : Except Cluster Cluster :=
  if s.now - s.lastSweepBeat ≥ t.heartbeatMs then nodeLifecycle t { s with lastSweepBeat := s.now } else .ok s

/-- The controllers' sweep, which is made in every tick. -/
def sweep : Cluster :=
  let s := s.reconcileWorkloads t
  let s := s.reconcileVipAllocations
  let s := s.reconcileIngressAllocations
  s.schedule t localeLe

def advance (dtMs : ℚ) : Except Cluster Cluster :=
  if dtMs ≤ 0 then .ok s
  else do
    let s := { s with now := s.now + dtMs }
    let s := { s with tasks := s.tasks.mergeSort fun a b => a.due ≤ b.due }
    let s ← s.runDue t
    let s ← s.heartbeat t
    return s.sweep t localeLe

end Time

/-! ### The public operations -/

inductive ApplyAction where
  | created
  | updated
  | unchanged
  | error (text : String)

structure ApplyResult where
  kind : Kind
  name : String
  action : ApplyAction

section Public
-- JSON.stringify tells the labels and specs of two objects apart, the order of their fields included.
variable (t : SimTimings) (sameText : (k : Kind) → Obj k → Obj k → Bool)

/-- A node keeps the status it has; the status of an applied one is not read. -/
def keepStatus : {k : Kind} → Obj k → Option (Obj k) → Obj k
  | .node, o, prev => o.withNodeStatus ((prev.bind fun p => p.body.status).getD { phase := .notReady, instanceCount := 0 })
  | _, o, _ => o

-- The agent of a node that is new.
def register (s : Cluster) (k : Kind) (name : String) : Cluster :=
  if k = .node ∧ !s.agents.has name then
    let agent := { alive := true, lastBeat := s.now, infraReadyAt := s.now + t.infraStartMs }
    let s := { s with agents := s.agents.set name agent }
    s.after t.infraStartMs ("infra:" ++ name) (.infraUp name)
  else s

def store (s : Cluster) (k : Kind) (o : Obj k) : ApplyResult × Cluster :=
  let existing := s.get k o.name
  if existing.any fun e => sameText k e o then (⟨k, o.name, .unchanged⟩, s)
  else
    let created := (existing.bind fun e => e.metadata.createdUnix).getD s.simUnix
    let stored := keepStatus { o with metadata := { o.metadata with createdUnix := some created } } existing
    let s := s.register t k o.name
    let s := s.set stored
    let s := s.emit (if existing.isSome then .modified else .added) stored
    let s := if k = .service ∨ k = .node then s.reconcileVipAllocations else s
    (⟨k, o.name, if existing.isSome then .updated else .created⟩, s)

def applyObject (s : Cluster) (obj : KliteObject) : ApplyResult × Cluster :=
  if obj.1 = .inst then
    (⟨obj.1, obj.2.name, .error "Instances are server-materialized. Apply a Workload instead"⟩, s)
  else s.store t sameText obj.1 obj.2

def applyObjects (s : Cluster) : List KliteObject → List ApplyResult × Cluster
  | [] => ([], s)
  | obj :: objs =>
    let (result, s) := s.applyObject t sameText obj
    let (results, s) := s.applyObjects objs
    (result :: results, s)

def remove (s : Cluster) (k : Kind) (name : String) : Cluster :=
  match s.get k name with
  | none => s
  | some obj =>
    if k = .node then
      let s := { s with removingNodes := if name ∈ s.removingNodes then s.removingNodes else s.removingNodes ++ [name] }
      s.cordonAndDrain name
    else if k = .inst then s.killInstance t name
    else
      let s := s.delete k name
      let s := s.emit .deleted obj
      let s := if k = .service then s.reconcileVipAllocations else s
      if k = .workload then (s.instancesOf name).foldl (fun s inst => s.deleteInstance inst.name) s else s

def cordon (s : Cluster) (name : String) (on : Bool) : Cluster :=
  match s.get .node name with
  | none => s
  | some node =>
    match node.body.status with
    | none => s
    | some st =>
      let node := node.withNodeStatus { st with unschedulable := some on }
      let s := s.write node
      s.emit .modified node

def killNodeAgent (s : Cluster) (name : String) : Cluster :=
  match s.agents.get name with
  | none => s
  | some a => { s with agents := s.agents.set name { a with alive := false } }

def reviveNodeAgent (s : Cluster) (name : String) : Cluster :=
  match s.agents.get name with
  | none => s
  | some a => { s with agents := s.agents.set name { a with alive := true, lastBeat := s.now } }

/-- The cluster the constructor makes. -/
def start (seed : List KliteObject) : Cluster := (applyObjects t sameText {} seed).2

inductive Op where
  | applyObjects (objs : List KliteObject)
  | remove (k : Kind) (name : String)
  | cordon (name : String) (on : Bool)
  | drainNode (name : String)
  | killInstance (name : String)
  | killNodeAgent (name : String)
  | reviveNodeAgent (name : String)
  | advance (dtMs : ℚ)
  | subscribe

def Op.subscribes : Op → Bool
  | .subscribe => true
  | _ => false

/-- The cluster an operation leaves, whether it returned or threw. -/
def left : Except Cluster Cluster → Cluster
  | .ok s => s
  | .error s => s

def perform (localeLe : String → String → Bool) (s : Cluster) : Op → Cluster
  | .applyObjects objs => (s.applyObjects t sameText objs).2
  | .remove k name => s.remove t k name
  | .cordon name on => s.cordon name on
  | .drainNode name => s.cordonAndDrain name
  | .killInstance name => s.killInstance t name
  | .killNodeAgent name => s.killNodeAgent name
  | .reviveNodeAgent name => s.reviveNodeAgent name
  | .advance dtMs => left (s.advance t localeLe dtMs)
  | .subscribe => s.subscribe

end Public

end Cluster

end Klite.Sim
