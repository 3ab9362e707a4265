import Klite.Net.Desired
import Klite.Store.Calls

/-!
# The endpoints engine (internal/controller/endpoints.go)

Every replica lists the store and rebuilds every node's snapshot. `store` keeps what
has not changed and counts its version up once for a pass that changes anything. The
subscribers it kicks are in `Klite.Server.Watch`.
-/

namespace Klite
open Lib

structure Inputs where
  services : List Service := []
  instances : List Instance := []
  nodes : List String := []
  policies : List NetworkPolicy := []
  vips : Std.ExtTreeMap String String := ∅
  ingress : Std.ExtTreeMap String IngressAllocation := ∅
  advertise : Std.ExtTreeMap String String := ∅

def mapOf {V : Type} (l : List (String × V)) : Std.ExtTreeMap String V := Table.fill ∅ l

section Inputs

-- vip.go:32
def allocationName (service node : String) : String := service ++ "." ++ node

-- ingress.go:41
def ingressAllocationName (service inst : String) : String := service ++ "." ++ inst

-- The nodes with a record, and those some instance is bound to.
def nodeNames (nodes : List Node) (insts : List Instance) : List String :=
  (nodes.map (·.metadata.name) ++ (insts.map (·.spec.node)).filter (· ≠ "")).dedup.insertionSort (· ≤ ·)

def inputsOf (svcs : List Service) (insts : List Instance) (nodes : List Node)
    (policies : List NetworkPolicy) (vips : List VIPAllocation) (ingress : List IngressAllocation) : Inputs where
  services := svcs.insertionSort fun a b => a.metadata.name ≤ b.metadata.name
  instances := insts.insertionSort fun a b => a.metadata.name ≤ b.metadata.name
  nodes := nodeNames nodes insts
  policies := policies
  vips := mapOf (vips.map fun a => (a.metadata.name, a.vip))
  ingress := mapOf (ingress.map fun a => (a.metadata.name, a))
  advertise := mapOf ((nodes.filter fun n => n.getStatus.advertiseAddress ≠ "").map fun n =>
    (n.metadata.name, n.getStatus.advertiseAddress))

def listInputs : Code (Except StoreErr Inputs) := do
  match ← list .service with
  | .error e => pure (.error e)
  | .ok (svcs, _) =>
    match ← list .inst with
    | .error e => pure (.error e)
    | .ok (insts, _) =>
      match ← list .node with
      | .error e => pure (.error e)
      | .ok (nodes, _) =>
        match ← list .networkPolicy with
        | .error e => pure (.error e)
        | .ok (policies, _) =>
          match ← list .vipAllocation with
          | .error e => pure (.error e)
          | .ok (vips, _) =>
            match ← list .ingressAllocation with
            | .error e => pure (.error e)
            | .ok (ingress, _) => pure (.ok (inputsOf svcs insts nodes policies vips ingress))

end Inputs

-- An empty selector selects nothing; a missing label reads as "".
def selects (svc : Service) (inst : Instance) : Bool :=
  if svc.spec.selector.isEmpty then false
  else svc.spec.selector.toList.all fun e => inst.metadata.labels.getD e.1 "" = e.2

def Instance.ip (inst : Instance) : String := inst.getStatus.instanceIp

def endpointHealth : InstancePhase → Option EndpointHealth
  | .ready => some .ready
  | .draining => some .draining
  | _ => none

section Build
variable (inp : Inputs)

def endpointOf (svc : Service) (inst : Instance) : Option Endpoint :=
  if !selects svc inst then none
  else match endpointHealth inst.phase with
    | none => none
    | some health =>
      if inst.ip = "" then none
      else some
        { ip := inst.ip
          port := svc.spec.targetPort
          node := inst.spec.node
          health := health
          ingressPort := (inp.ingress[ingressAllocationName svc.metadata.name inst.metadata.name]?.map
            IngressAllocation.port).getD 0
          machineAddress := inp.advertise.getD inst.spec.node "" }

def buildGroups : Std.ExtTreeMap String EndpointGroup :=
  mapOf (inp.services.map fun svc =>
    (svc.metadata.name, ⟨svc.metadata.name, inp.instances.filterMap (endpointOf inp svc)⟩))

def firstService (inst : Instance) : Option Service := inp.services.find? fun svc => selects svc inst

def buildIPIdentity : Std.ExtTreeMap String String :=
  mapOf (inp.instances.filterMap fun inst =>
    if inst.ip = "" then none else (firstService inp inst).map fun svc => (inst.ip, svc.metadata.name))

def fallbackProbePort (inst : Instance) : Int :=
  ((firstService inp inst).map fun svc => svc.spec.targetPort).getD 0

def buildProbeTargets (node : String) : List ProbeTarget :=
  inp.instances.filterMap fun inst =>
    if inst.spec.node ≠ node ∨ inst.ip = "" then none
    else
      let own := inst.spec.container.readinessProbe.getD 0
      let port := if own = 0 then fallbackProbePort inp inst else own
      if port = 0 then none else some ⟨inst.metadata.name, inst.ip, port⟩

def buildIngressListeners (node : String) : List IngressListener :=
  let instances := mapOf (inp.instances.map fun inst => (inst.metadata.name, inst))
  let targetPorts := mapOf (inp.services.map fun svc => (svc.metadata.name, svc.spec.targetPort))
  inp.ingress.toList.filterMap fun e =>
    if e.2.node ≠ node then none
    else
      let ip := (instances[e.2.inst]?.map Instance.ip).getD ""
      match targetPorts[e.2.service]? with
      | none => none
      | some targetPort =>
        if ip = "" then none else some ⟨e.2.service, e.2.port, ip, targetPort⟩

def nodeInstances (node : String) : List Instance := inp.instances.filter fun inst => inst.spec.node = node

-- A service is listed once its allocation for the node has landed.
def listedServices (node : String) : List (Service × String) :=
  inp.services.filterMap fun svc =>
    inp.vips[allocationName svc.metadata.name node]?.map fun vip => (svc, vip)

def buildNet (node : String) : NetDesired where
  services := (listedServices inp node).map fun e =>
    ⟨e.1.metadata.name, e.2, e.1.spec.port, e.1.spec.targetPort⟩
  endpoints := (listedServices inp node).filterMap fun e =>
    let g := (buildGroups inp)[e.1.metadata.name]?.getD {}
    if g.endpoints = [] then none else some g
  ipIdentity := buildIPIdentity inp
  policies := compile inp.policies
  probeTargets := buildProbeTargets inp node
  ingressListeners := buildIngressListeners inp node

abbrev Snapshots := Std.ExtTreeMap String NodeSnapshot

def buildAll : Snapshots :=
  mapOf (inp.nodes.map fun node => (node, { instances := nodeInstances inp node, net := buildNet inp node }))

end Build

structure Engine where
  ready : Bool := false
  version : ℕ := 0
  nodes : Snapshots := ∅

-- The revision is not compared.
def snapshotEqual (a b : NodeSnapshot) : Bool := a.instances = b.instances && a.net = b.net

namespace Engine
variable (e : Engine) (built : Snapshots)

def snapshot (node : String) : Option NodeSnapshot :=
  if !e.ready then none else some (e.nodes[node]?.getD {})

-- A node that left decays to an empty snapshot; one that had already decayed is dropped.
def removed : List String :=
  (e.nodes.toList.filter fun p => !built.contains p.1 && snapshotEqual p.2 {}).map (·.1)

def decayed : List (String × NodeSnapshot) :=
  (e.nodes.toList.filter fun p => !built.contains p.1 && !snapshotEqual p.2 {}).map fun p => (p.1, {})

def next : Snapshots := Table.fill built (e.decayed built)

def unchanged (node : String) (snap : NodeSnapshot) : Bool :=
  match e.nodes[node]? with
  | some prev => snapshotEqual prev snap
  | none => false

def changed : List String :=
  ((e.next built).toList.filter fun p => !e.unchanged p.1 p.2).map (·.1)

def nextVersion : ℕ := if e.changed built = [] then e.version else e.version + 1

-- Every node that is still tracked is in `next`.
def store : Engine where
  ready := true
  version := e.nextVersion built
  nodes := (e.next built).map fun node snap =>
    { snap with
      revision := if e.unchanged node snap then (e.nodes[node]?.getD {}).revision else e.nextVersion built }

end Engine

end Klite
