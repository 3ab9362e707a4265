import Klite.Server.Auth
import Klite.Xds.Cache

/-!
# The xDS services behind the gate (internal/xds/server.go, internal/server/auth.go)

`RegisterADS` mounts four discovery services on klited's gRPC server. go-control-plane
answers from the snapshot of the node a request names; on a stream, requests that name
none are the first one's node's. What it answers is left open.
-/

namespace Klite
open Lib

inductive XdsMethod where
  | streamAggregatedResources
  | deltaAggregatedResources
  | streamClusters
  | deltaClusters
  | fetchClusters
  | streamEndpoints
  | deltaEndpoints
  | fetchEndpoints
  | streamListeners
  | deltaListeners
  | fetchListeners
  deriving DecidableEq

def XdsMethod.fullMethod : XdsMethod → String
  | .streamAggregatedResources => "/envoy.service.discovery.v3.AggregatedDiscoveryService/StreamAggregatedResources"
  | .deltaAggregatedResources => "/envoy.service.discovery.v3.AggregatedDiscoveryService/DeltaAggregatedResources"
  | .streamClusters => "/envoy.service.cluster.v3.ClusterDiscoveryService/StreamClusters"
  | .deltaClusters => "/envoy.service.cluster.v3.ClusterDiscoveryService/DeltaClusters"
  | .fetchClusters => "/envoy.service.cluster.v3.ClusterDiscoveryService/FetchClusters"
  | .streamEndpoints => "/envoy.service.endpoint.v3.EndpointDiscoveryService/StreamEndpoints"
  | .deltaEndpoints => "/envoy.service.endpoint.v3.EndpointDiscoveryService/DeltaEndpoints"
  | .fetchEndpoints => "/envoy.service.endpoint.v3.EndpointDiscoveryService/FetchEndpoints"
  | .streamListeners => "/envoy.service.listener.v3.ListenerDiscoveryService/StreamListeners"
  | .deltaListeners => "/envoy.service.listener.v3.ListenerDiscoveryService/DeltaListeners"
  | .fetchListeners => "/envoy.service.listener.v3.ListenerDiscoveryService/FetchListeners"

def XdsMethod.isUnary : XdsMethod → Bool
  | .fetchClusters | .fetchEndpoints | .fetchListeners => true
  | _ => false

-- A discovery request: `GetNode().GetId()`, and everything else in it.
structure XdsRequest (ρ : Type) where
  nodeId : String := ""
  rest : ρ

/- The snapshots a cluster serves. No node has an empty name. -/
structure ClusterState where
  snapshot : String → Option XdsSnapshot
  unnamed : snapshot "" = none

/- go-control-plane: a unary answer from one snapshot, and a stream's next answer from what
the stream has seen so far, the newest first: its requests, and changes of its snapshot. -/
structure ControlPlane (ρ Resp : Type) where
  fetch : XdsMethod → XdsRequest ρ → Option XdsSnapshot → Resp
  answer : XdsMethod → List (Option (XdsRequest ρ) × Option XdsSnapshot) → Option Resp

def Principal.nodeName : Principal → String
  | .node n => n
  | _ => ""

structure XdsBoundStream where
  node : String
  bound : Bool := false

-- auth.go:116, for a message that names the node `id`.
def XdsBoundStream.recvMsg (s : XdsBoundStream) (id : String) : Except Status XdsBoundStream :=
  if id = "" ∧ s.bound then .ok s
  else if id = "" then .error ⟨.permissionDenied, "first xds request must name the node"⟩
  else if id ≠ s.node then
    .error ⟨.permissionDenied, "certificate is for node " ++ quote s.node ++ ", not " ++ quote id⟩
  else .ok { s with bound := true }

-- auth.go:76: the stream a handler reads from, bound to a node or plain.
def streamGate (adminToken : String) (c : Conn) (fullMethod : String) : Except Status (Option XdsBoundStream) :=
  (authorize adminToken c fullMethod).map fun p =>
    if hasPrefix fullMethod xdsMethodPrefix then some { node := p.nodeName } else none

def gateRecv (g : Option XdsBoundStream) (id : String) : Except Status (Option XdsBoundStream) :=
  match g with
  | none => .ok none
  | some b => (b.recvMsg id).map some

structure XdsStream (ρ : Type) where
  method : XdsMethod
  gate : Option XdsBoundStream
  closed : Bool := false
  -- The node of the first message, and of the latest one.
  first : Option String := none
  current : String := ""
  seen : List (Option (XdsRequest ρ) × Option XdsSnapshot) := []

inductive XdsResponse (Resp : Type) where
  | failed (st : Status)
  | answered (r : Resp)

inductive XdsEvent (ρ : Type) where
  | fetch (m : XdsMethod) (req : XdsRequest ρ)
  | connect (m : XdsMethod)
  | send (t : ℕ) (req : XdsRequest ρ)
  | change (t : ℕ)

section Calls
variable {ρ Resp : Type} (cp : ControlPlane ρ Resp) (adminToken : String) (c : Conn) (state : ClusterState)

-- The unary interceptor hands the request on as it is (auth.go:61).
def unaryCall (m : XdsMethod) (req : XdsRequest ρ) : XdsResponse Resp :=
  match authorize adminToken c m.fullMethod with
  | .error st => .failed st
  | .ok _ => .answered (cp.fetch m req (state.snapshot req.nodeId))

def streamRecv (req : XdsRequest ρ) (s : XdsStream ρ) : XdsStream ρ × Option (XdsResponse Resp) :=
  match gateRecv s.gate req.nodeId with
  | .error st => ({ s with closed := true }, some (.failed st))
  | .ok gate =>
    let first := s.first.getD req.nodeId
    let id := if req.nodeId = "" then first else req.nodeId
    let seen := (some req, state.snapshot id) :: s.seen
    ({ s with gate := gate, first := some first, current := id, seen := seen },
      (cp.answer s.method seen).map .answered)

-- A stream that has asked may be answered when its snapshot changes.
def streamChange (s : XdsStream ρ) : XdsStream ρ × Option (XdsResponse Resp) :=
  if s.first.isNone then (s, none)
  else
    let seen := (none, state.snapshot s.current) :: s.seen
    ({ s with seen := seen }, (cp.answer s.method seen).map .answered)

def onStream (f : XdsStream ρ → XdsStream ρ × Option (XdsResponse Resp)) (streams : List (XdsStream ρ))
    (t : ℕ) : List (XdsStream ρ) × Option (XdsResponse Resp) :=
  match streams[t]? with
  | none => (streams, none)
  | some s => if s.closed then (streams, none) else (streams.set t (f s).1, (f s).2)

def xdsStep (streams : List (XdsStream ρ)) : XdsEvent ρ → List (XdsStream ρ) × Option (XdsResponse Resp)
  | .fetch m req => (streams, if m.isUnary then some (unaryCall cp adminToken c state m req) else none)
  | .connect m =>
    if m.isUnary then (streams, none)
    else match streamGate adminToken c m.fullMethod with
      | .error st => (streams, some (.failed st))
      | .ok gate => (streams ++ [{ method := m, gate := gate }], none)
  | .send t req => onStream (streamRecv cp state req) streams t
  | .change t => onStream (streamChange cp state) streams t

end Calls

section Session
variable {ρ Resp : Type} (cp : ControlPlane ρ Resp) (adminToken : String) (c : Conn)

/- Everything the caller receives, while the cluster goes through `states`. -/
def responses (states : ℕ → ClusterState) (streams : List (XdsStream ρ)) (k : ℕ) :
    List (XdsEvent ρ) → List (Option (XdsResponse Resp))
  | [] => []
  | ev :: evs =>
    let r := xdsStep cp adminToken c (states k) streams ev
    r.2 :: responses states r.1 (k + 1) evs

end Session

end Klite
