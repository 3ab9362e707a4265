import Klite.Controller.Endpoints
import Klite.Net.Netip

/-!
# Envoy resources (internal/xds/builder.go)

A node's `NetDesired` becomes listeners, clusters and load assignments. Timeouts,
TLS contexts and load-balancing constants, which no modelled function reads, are left
out; whether a socket is mTLS is kept.
-/

namespace Klite
open Lib

structure SocketAddress where
  host : String
  port : Int
  deriving DecidableEq

inductive RbacPrincipal where
  | any
  | directRemoteIp (addressPrefix : String) (prefixLen : ℕ)
  deriving DecidableEq

inductive RbacAction where
  | allow
  | deny
  deriving DecidableEq

-- The permissions of every policy are Any.
structure RbacPolicy where
  principals : List RbacPrincipal
  deriving DecidableEq

inductive NetworkFilter where
  | rbac (statPrefix : String) (action : RbacAction) (policies : Std.ExtTreeMap String RbacPolicy)
  | tcpProxy (statPrefix cluster : String)
  deriving DecidableEq

structure Listener where
  name : String
  freebind : Bool := false
  address : SocketAddress
  -- A client certificate of the cluster's CA is required.
  mtls : Bool := false
  filters : List NetworkFilter
  deriving DecidableEq

inductive ClusterKind where
  | eds
  | static (address : SocketAddress)
  deriving DecidableEq

structure Cluster where
  name : String
  kind : ClusterKind
  deriving DecidableEq

inductive HealthStatus where
  | healthy
  | draining
  deriving DecidableEq

structure LbEndpoint where
  health : HealthStatus
  address : SocketAddress
  -- The metadata that makes the dial an mTLS one.
  ingressMtls : Bool := false
  deriving DecidableEq

structure LoadAssignment where
  clusterName : String
  localities : List (List LbEndpoint) := []
  deriving DecidableEq

structure XdsSnapshot where
  version : String
  clusters : Std.ExtTreeMap String Cluster
  endpoints : Std.ExtTreeMap String LoadAssignment
  listeners : Std.ExtTreeMap String Listener
  deriving DecidableEq

section Validate

-- The texts of `netip.ParseAddr` after the address are left out.
def validateAddr (what s : String) : Option String :=
  match Netip.parseAddr s with
  | some _ => none
  | none => some (what ++ ": ParseAddr(" ++ quote s ++ ")")

def outsidePorts (what : String) (low p : Int) : Option String :=
  if p < low ∨ p > 65535 then
    some (what ++ " " ++ toString p ++ " outside " ++ toString low ++ "-65535")
  else none

def checkAll {α : Type} (f : List α → α → Option String) : List α → List α → Option String
  | _, [] => none
  | seen, x :: xs => (f seen x).or (checkAll f (x :: seen) xs)

def validateServiceVIP (seen : List ServiceVIP) (svc : ServiceVIP) : Option String :=
  if svc.service = "" then some ("service with empty name (vip " ++ quote svc.vip ++ ")")
  else if seen.any fun s => s.service = svc.service then
    some ("service " ++ quote svc.service ++ " listed twice")
  else (validateAddr ("service " ++ svc.service ++ ": vip") svc.vip).or
    (outsidePorts ("service " ++ svc.service ++ ": port") 1 svc.port)

def validateEndpoint (svc : String) (ep : Endpoint) : Option String :=
  (validateAddr ("endpoint for " ++ svc ++ ": ip") ep.ip).or <|
  (outsidePorts ("endpoint for " ++ svc ++ ": port") 1 ep.port).or <|
  (if ep.machineAddress = "" then none
    else validateAddr ("endpoint for " ++ svc ++ ": machine address") ep.machineAddress).or <|
  outsidePorts ("endpoint for " ++ svc ++ ": ingress port") 0 ep.ingressPort

def validateEndpointGroup (seen : List EndpointGroup) (g : EndpointGroup) : Option String :=
  if seen.any fun s => s.service = g.service then
    some ("endpoint group " ++ quote g.service ++ " listed twice")
  else g.endpoints.findSome? (validateEndpoint g.service)

def validateIngressListener (seen : List IngressListener) (ing : IngressListener) : Option String :=
  if ing.service = "" then
    some ("ingress listener on port " ++ toString ing.port ++ " without a service")
  else
    (outsidePorts ("ingress " ++ ing.service ++ ": port") 1 ing.port).or <|
    (outsidePorts ("ingress " ++ ing.service ++ ": target port") 1 ing.targetPort).or <|
    (validateAddr ("ingress " ++ ing.service ++ ": pod ip") ing.podIp).or <|
    if seen.any fun s => s.port = ing.port then
      some ("ingress port " ++ toString ing.port ++ " claimed by two local endpoints")
    else none

-- The source ranges over the identity map in any order, so which bad key it names is open.
def validateIdentity (ids : Std.ExtTreeMap String String) : Option String :=
  ids.toList.findSome? fun e => validateAddr ("ip_identity key " ++ quote e.1) e.1

def validateNet (net : NetDesired) : Option String :=
  (checkAll validateServiceVIP [] net.services).or <|
  (checkAll validateEndpointGroup [] net.endpoints).or <|
  (checkAll validateIngressListener [] net.ingressListeners).or <|
  validateIdentity net.ipIdentity

end Validate

section Rbac

def policyTargets (pol : CompiledPolicy) (service : String) : Bool :=
  pol.target = service || (pol.target = "*" && !pol.except.contains service)

def principalsFor (source : String) (ipIdentity : Std.ExtTreeMap String String) : List RbacPrincipal :=
  if source = "*" then [.any]
  else ((ipIdentity.toList.filter fun e => e.2 = source).map (·.1)).filterMap fun ip =>
    (Netip.parseAddr ip).map fun addr => .directRemoteIp ip addr.bitLen

-- fmt's %03d
def pad3 (n : ℕ) : String := String.ofList (List.replicate (3 - (toString n).length) '0') ++ toString n

def policyKey (index : ℕ) (name : String) : String := pad3 index ++ "-" ++ name

-- A policy without principals is dropped.
def addPolicy (ids : Std.ExtTreeMap String String) (e : CompiledPolicy × ℕ) : Option (String × RbacPolicy) :=
  let principals := principalsFor e.1.source ids
  if principals = [] then none else some (policyKey e.2 e.1.policyName, ⟨principals⟩)

-- The policies of one action that target the service, with their place in the table.
def targeting (action : PolicyAction) (service : String) (net : NetDesired) : List (CompiledPolicy × ℕ) :=
  net.policies.zipIdx.filter fun e => policyTargets e.1 service && e.1.action = action

def rbacPolicies (action : PolicyAction) (service : String) (net : NetDesired) : Std.ExtTreeMap String RbacPolicy :=
  mapOf ((targeting action service net).filterMap (addPolicy net.ipIdentity))

def rbacFilters (service : String) (net : NetDesired) : List NetworkFilter :=
  let deny := rbacPolicies .deny service net
  let allow := rbacPolicies .allow service net
  (if deny.isEmpty then [] else [.rbac (service ++ "_deny") .deny deny]) ++
  -- An ALLOW filter without policies admits nobody.
  if targeting .allow service net = [] then [] else [.rbac (service ++ "_allow") .allow allow]

end Rbac

section Resources

def buildListener (net : NetDesired) (svc : ServiceVIP) : Listener where
  name := "svc/" ++ svc.service
  freebind := true
  address := ⟨svc.vip, svc.port⟩
  filters := rbacFilters svc.service net ++ [.tcpProxy svc.service svc.service]

def ingressName (ing : IngressListener) : String := "ingress/" ++ ing.service ++ "/" ++ toString ing.port

def buildIngressListener (ing : IngressListener) : Listener where
  name := ingressName ing
  address := ⟨"0.0.0.0", ing.port⟩
  mtls := true
  filters := [.tcpProxy ("ingress_" ++ toString ing.port) (ingressName ing)]

def buildIngressCluster (ing : IngressListener) : Cluster :=
  ⟨ingressName ing, .static ⟨ing.podIp, ing.targetPort⟩⟩

def healthStatus : EndpointHealth → HealthStatus
  | .draining => .draining
  | _ => .healthy

-- A remote endpoint without an ingress port or a machine address is not dialable yet.
def lbEndpoint (node : String) (ep : Endpoint) : Option LbEndpoint :=
  if ep.node = "" ∨ ep.node = node then some ⟨healthStatus ep.health, ⟨ep.ip, ep.port⟩, false⟩
  else if ep.ingressPort > 0 ∧ ep.machineAddress ≠ "" then
    some ⟨healthStatus ep.health, ⟨ep.machineAddress, ep.ingressPort⟩, true⟩
  else none

def buildLoadAssignment (node : String) (g : EndpointGroup) : LoadAssignment :=
  ⟨g.service, [g.endpoints.filterMap (lbEndpoint node)]⟩

-- A service without a group gets an empty assignment.
def buildEndpoints (node : String) (net : NetDesired) : List LoadAssignment :=
  net.endpoints.map (buildLoadAssignment node) ++
    (net.services.filter fun svc => !net.endpoints.any fun g => g.service = svc.service).map
      fun svc => { clusterName := svc.service }

def buildClusters (net : NetDesired) : List Cluster := net.services.map fun svc => ⟨svc.service, .eds⟩

-- What `Consistent` checks: the EDS clusters and the load assignments have the same names.
def XdsSnapshot.consistent (snap : XdsSnapshot) : Bool :=
  (snap.clusters.toList.filter fun e => e.2.kind = .eds).map (·.1) = snap.endpoints.toList.map (·.1)

def newSnapshot (node version : String) (net : NetDesired) : XdsSnapshot where
  version := version
  clusters := mapOf ((buildClusters net ++ net.ingressListeners.map buildIngressCluster).map
    fun c => (c.name, c))
  endpoints := mapOf ((buildEndpoints node net).map fun a => (a.clusterName, a))
  listeners := mapOf ((net.services.map (buildListener net) ++
    net.ingressListeners.map buildIngressListener).map fun l => (l.name, l))

def buildSnapshot (node version : String) (net : NetDesired) : Except String XdsSnapshot :=
  match validateNet net with
  | some e => .error ("node " ++ node ++ ": " ++ e)
  | none =>
    let snap := newSnapshot node version net
    if snap.consistent then .ok snap else .error ("node " ++ node ++ ": inconsistent snapshot")

end Resources

end Klite
