import Klite.Net.Netip
import Klite.Server.Auth

/-!
# AgentService: Register and ReportStatus (internal/server/agent.go)

`indexMu` is not modelled: it orders the index assignments of one replica, and
every call here may run on a replica of its own. Log lines are left out.
-/

namespace Klite
open Lib

def netSubnet : String := "10.44.0.0/16"
def netVIPRange : String := "10.44.64.0/18"
def defaultInfraIPBase : Int := 10
def defaultIngressPortBase : Int := 20000
def ingressPortsPerNode : Int := 32

-- ingress.go:31
def ingressPortBase (flag : Int) : Int := if flag = 0 then defaultIngressPortBase else flag

-- `SignNodeCSR` parses and signs; what it answers is a parameter.
structure CA where
  certPEM : String
  signNodeCSR : String → String → Except String String

structure AgentConfig where
  clusterToken : String := ""
  ca : Option CA := none
  clusterId : String := ""
  netAdminPortBase : Int := 0
  envoyAdminPortBase : Int := 0
  infraIPBase : Int := 0
  ingressPortBaseFlag : Int := 0
  netImage : String := ""

structure RegisterRequest where
  node : String
  clusterToken : String := ""
  csrPem : String := ""
  advertiseAddress : String := ""

structure NetBootstrap where
  subnet : String
  kliteNetIp : String
  vipRange : String
  nodeIndex : Int
  clusterId : String
  netAdminPortBase : Int
  envoyAdminPortBase : Int
  ingressPortBase : Int
  ingressPortsPerNode : Int
  netImage : String

structure RegisterResponse where
  net : NetBootstrap
  certPem : String := ""
  caPem : String := ""

section Agent
variable (cfg : AgentConfig)

-- `admit` (agent.go:152).
def admitCaller (p : Principal) (req : RegisterRequest) : Except Status String :=
  if p ≠ .node req.node ∧ req.clusterToken ≠ cfg.clusterToken then
    .error ⟨.unauthenticated, "bad cluster token"⟩
  else if req.node = "" then .error ⟨.invalidArgument, "node name is required"⟩
  else if req.csrPem = "" then .ok ""
  else match cfg.ca with
    | none => .error ⟨.unimplemented, "this server has no CA to sign the csr"⟩
    | some ca =>
      match ca.signNodeCSR req.csrPem req.node with
      | .ok cert => .ok cert
      | .error e => .error ⟨.invalidArgument, "sign csr: " ++ e⟩

def netBootstrap (idx : Int) : NetBootstrap where
  subnet := netSubnet
  kliteNetIp := "10.44.0." ++
    toString (int32 ((if cfg.infraIPBase = 0 then defaultInfraIPBase else cfg.infraIPBase) + idx))
  vipRange := netVIPRange
  nodeIndex := idx
  clusterId := cfg.clusterId
  netAdminPortBase := cfg.netAdminPortBase
  envoyAdminPortBase := cfg.envoyAdminPortBase
  ingressPortBase := ingressPortBase cfg.ingressPortBaseFlag
  ingressPortsPerNode := ingressPortsPerNode
  netImage := cfg.netImage

end Agent

/- The upward search of `freeNodeIndex` (agent.go:187). Among `length + 1`
candidates one is free, so the bounded search is the unbounded one. -/
def freeFrom (used : List Int) : ℕ → Int → Int
  | 0, i => i
  | n + 1, i => if i ∈ used then freeFrom used n (i + 1) else i

def freeNodeIndex : Code (Except StoreErr Int) := do
  match ← list .node with
  | .error e => pure (.error e)
  | .ok (nodes, _) =>
    let used := nodes.map Node.index
    pure (.ok (freeFrom used used.length 1))

def holderIn (nodes : List Node) (name : String) (idx : Int) : String :=
  ((nodes.find? fun n => n.metadata.name ≠ name ∧ n.index = idx).map (·.metadata.name)).getD ""

def indexHolder (name : String) (idx : Int) : Code (Except StoreErr String) := do
  match ← list .node with
  | .error e => pure (.error e)
  | .ok (nodes, _) => pure (.ok (holderIn nodes name idx))

def cleared (node : Node) : Node := node.withStatus fun st => { st with nodeIndex := 0 }

def judgeYield (idx : Int) (node : Node) : Code (Verdict .node (Except StoreErr Bool)) :=
  if node.index ≠ idx then pure (.done (.ok true))
  -- A nil status reads index 0; the source would fault on the write.
  else if node.status = none then .crash
  else pure (.write (cleared node) (.ok true))

def backOff (name : String) (idx : Int) (holder : String) : Code (Except StoreErr Bool) :=
  if holder = "" then pure (.ok false)
  else casLoop .node name (judgeYield idx) .error
    (.error ⟨.conflict, "node " ++ name ++ " index yield: revision conflict"⟩) casRetries

def yieldIndexCollision (name : String) (idx : Int) : Code (Except StoreErr Bool) := do
  match ← indexHolder name idx with
  | .error e => pure (.error e)
  | .ok holder => backOff name idx holder

def advertiseIP (addr : String) : String :=
  match Netip.parseAddr addr with
  | some ip => if ip.isLoopback || ip.isUnspecified then "" else addr
  | none => ""

-- The record Register writes (agent.go:117-121).
def registered (node : Node) (idx unix : Int) (addr : String) : Node :=
  node.withStatus fun st =>
    { st with
      nodeIndex := idx
      lastHeartbeatUnix := unix
      phase := .ready
      advertiseAddress := if addr = "" then st.advertiseAddress else addr }

def assignIndex (node : Node) : Code (Except StoreErr Int) :=
  if node.index = 0 then freeNodeIndex else pure (.ok node.index)

-- Only a node that had no index checks for a collision.
def checkCollision (fresh : Bool) (name : String) (idx : Int) : Code (Except StoreErr Bool) :=
  if fresh then yieldIndexCollision name idx else pure (.ok false)

def registerLoop (name addr : String) : ℕ → Code (Except Status Int)
  | 0 => pure (.error raced)
  | n + 1 => do
    match ← get .node name with
    | .error e =>
      if e.isNotFound then
        pure (.error ⟨.permissionDenied, "node " ++ quote name ++
          " is not declared in the cluster: apply the node YAML first"⟩)
      else pure (.error (storeStatus e))
    | .ok (node, rev) =>
      match ← assignIndex node with
      | .error e => pure (.error (storeStatus e))
      | .ok idx =>
        let t ← now
        match ← put .node (registered node idx (t / second) addr) rev with
        | .error e =>
          if e.isConflict then registerLoop name addr n else pure (.error (storeStatus e))
        | .ok _ =>
          match ← checkCollision (node.index = 0) name idx with
          | .error e => pure (.error (storeStatus e))
          | .ok true => registerLoop name addr n
          | .ok false => pure (.ok idx)

def register (cfg : AgentConfig) (p : Principal) (req : RegisterRequest) : Code (Except Status RegisterResponse) :=
  match admitCaller cfg p req with
  | .error e => pure (.error e)
  | .ok cert => do
    match ← registerLoop req.node (advertiseIP req.advertiseAddress) casRetries with
    | .error e => pure (.error e)
    | .ok idx =>
      pure (.ok
        { net := netBootstrap cfg idx
          certPem := cert
          caPem := if cert = "" then "" else (cfg.ca.map (·.certPEM)).getD "" })

structure InstanceStatusUpdate where
  name : String
  uid : Uid
  status : Option InstanceStatus

structure ReportStatusRequest where
  node : String
  instances : List InstanceStatusUpdate := []
  advertiseAddress : String := ""
  nodeIndex : Int := 0

def servingPhase (p : InstancePhase) : Bool := p = .ready ∨ p = .running ∨ p = .pending

/- agent.go:431-434: a stored DRAINING outlives reports that still say the
instance serves. -/
def effectiveStatus (stored : InstancePhase) (st : InstanceStatus) : InstanceStatus :=
  if stored = .draining ∧ servingPhase st.phase then { st with phase := .draining } else st

def judgeReport (node : String) (u : InstanceStatusUpdate) (inst : Instance) :
    Code (Verdict .inst (Except StoreErr Unit)) :=
  if inst.spec.node ≠ node then
    pure (.done (.error ⟨.other, "instance " ++ u.name ++ " is scheduled to node " ++
      quote inst.spec.node ++ ", not " ++ quote node⟩))
  else if inst.metadata.uid ≠ u.uid then pure (.done (.ok ()))
  else match u.status with
    -- Assigning through the absent message faults.
    | none => .crash
    | some st =>
      let st' := effectiveStatus inst.phase st
      if inst.status = some st' then pure (.done (.ok ()))
      else pure (.write { inst with status := some st' } (.ok ()))

def applyInstanceStatus (node : String) (u : InstanceStatusUpdate) : Code (Except StoreErr Unit) :=
  casLoop .inst u.name (judgeReport node u)
    (fun e => if e.isNotFound then .ok () else .error e)
    (.error ⟨.conflict, "instance " ++ u.name ++ " status: revision conflict"⟩) casRetries

-- agent.go:475: a DRAINING phase survives heartbeats.
def stampPhase (p : NodePhase) : NodePhase := if p = .draining then .draining else .ready

def stamped (node : Node) (unix : Int) (advertise : String) : Node :=
  node.withStatus fun st =>
    { st with
      lastHeartbeatUnix := unix
      phase := stampPhase st.phase
      advertiseAddress := if advertise = "" then st.advertiseAddress else advertise }

def judgeStamp (advertise : String) (node : Node) : Code (Verdict .node (Except StoreErr Int)) := do
  let t ← now
  let st := node.getStatus
  if st.lastHeartbeatUnix = t / second ∧ st.phase = stampPhase st.phase ∧
      (advertise = "" ∨ st.advertiseAddress = advertise) then
    pure (.done (.ok node.index))
  else pure (.write (stamped node (t / second) advertise) (.ok node.index))

def stampNode (name advertise : String) : Code (Except StoreErr Int) :=
  casLoop .node name (judgeStamp advertise) .error
    (.error ⟨.conflict, "node " ++ name ++ " heartbeat: revision conflict"⟩) casRetries

def healed (node : Node) (reported : Int) : Node :=
  node.withStatus fun st => { st with nodeIndex := reported }

def healLoop (name : String) (reported : Int) : ℕ → Code Unit
  | 0 => pure ()
  | n + 1 => do
    match ← get .node name with
    | .error _ => pure ()
    | .ok (node, rev) =>
      if node.index ≠ 0 then pure ()
      else match ← indexHolder name reported with
        | .error _ => pure ()
        | .ok holder =>
          if holder ≠ "" then pure ()
          else match ← put .node (healed node reported) rev with
            | .error e => if e.isConflict then healLoop name reported n else pure ()
            | .ok _ => do
              let _ ← yieldIndexCollision name reported
              pure ()

def healNodeIndex (name : String) (stored reported : Int) : Code Unit :=
  if reported = 0 ∨ stored = reported then pure ()
  else if stored ≠ 0 then pure ()
  else healLoop name reported casRetries

-- A failed instance write never fails the heartbeat.
def reportInstances (node : String) (us : List InstanceStatusUpdate) : Code Unit :=
  us.foldlM (fun _ u => do let _ ← applyInstanceStatus node u; pure ()) ()

def reportStatus (p : Principal) (req : ReportStatusRequest) : Code (Except Status Unit) :=
  if req.node = "" then pure (.error ⟨.invalidArgument, "node name is required"⟩)
  else match requireNodeMatch p req.node with
    | some e => pure (.error e)
    | none => do
      reportInstances req.node req.instances
      match ← stampNode req.node (advertiseIP req.advertiseAddress) with
      | .error e => pure (.error (storeStatus e))
      | .ok stored => do
        healNodeIndex req.node stored req.nodeIndex
        pure (.ok ())

end Klite
