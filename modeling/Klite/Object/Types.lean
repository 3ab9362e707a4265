import Mathlib.Data.List.Basic
import Mathlib.Data.String.Basic

/-!
# The object model (api/proto/klite/v1/objects.proto, internal/object/object.go)

A message-typed field is an `Option` where the code tells an absent message from
a zero one. The specs are plain: `Default` allocates them before an object is
stored, and `createInstance` always sets one. Generated getters are nil-safe, and
`getStatus` is the getter that reads an absent status as the zero status.
-/

namespace Klite

abbrev Labels := Std.ExtTreeMap String String

/- A UUID. The code compares UIDs and tests for the empty one, which is 0 here;
the store mints 1, 2, 3, … -/
abbrev Uid := Nat

structure Meta where
  name : String := ""
  labels : Labels := ∅
  uid : Uid := 0
  resourceVersion : Int := 0
  createdUnix : Int := 0
  deriving DecidableEq

structure EnvVar where
  name : String := ""
  value : String := ""
  deriving DecidableEq

structure Container where
  name : String := ""
  image : String := ""
  command : List String := []
  args : List String := []
  env : List EnvVar := []
  ports : List Int := []
  cpus : String := ""
  memory : String := ""
  readinessProbe : Option Int := none
  deriving DecidableEq

structure Template where
  labels : Labels := ∅
  containers : List Container := []
  deriving DecidableEq

structure DrainSpec where
  drainTimeoutSeconds : Int := 0
  terminationGraceSeconds : Int := 0
  deriving DecidableEq

structure WorkloadSpec where
  replicas : Int := 0
  nodeName : String := ""
  template : Template := {}
  drain : Option DrainSpec := none
  deriving DecidableEq

structure WorkloadStatus where
  readyInstances : Int := 0
  totalInstances : Int := 0
  templateHash : String := ""
  deriving DecidableEq

structure Workload where
  metadata : Meta := {}
  spec : WorkloadSpec := {}
  status : Option WorkloadStatus := none
  deriving DecidableEq

structure ServiceSpec where
  selector : Labels := ∅
  port : Int := 0
  targetPort : Int := 0
  deriving DecidableEq

structure Service where
  metadata : Meta := {}
  spec : ServiceSpec := {}
  deriving DecidableEq

inductive NodePhase where
  | unspecified
  | ready
  | notReady
  | draining
  deriving DecidableEq

structure NodeSpec where
  maxInstances : Int := 0
  deriving DecidableEq

structure NodeStatus where
  phase : NodePhase := .unspecified
  unschedulable : Bool := false
  lastHeartbeatUnix : Int := 0
  nodeIndex : Int := 0
  instanceCount : Int := 0
  advertiseAddress : String := ""
  deriving DecidableEq

structure Node where
  metadata : Meta := {}
  spec : NodeSpec := {}
  status : Option NodeStatus := none
  deriving DecidableEq

inductive PolicyAction where
  | unspecified
  | allow
  | deny
  deriving DecidableEq

structure PolicyRule where
  source : String := ""
  target : String := ""
  except : List String := []
  deriving DecidableEq

structure NetworkPolicySpec where
  action : PolicyAction := .unspecified
  rules : List PolicyRule := []
  deriving DecidableEq

structure NetworkPolicy where
  metadata : Meta := {}
  spec : NetworkPolicySpec := {}
  deriving DecidableEq

/- Proto3 enums are open: an agent may report a number no constant names. -/
inductive InstancePhase where
  | unspecified
  | pending
  | running
  | ready
  | draining
  | failed
  | terminating
  | unrecognized (n : Int)
  deriving DecidableEq

structure InstanceSpec where
  workload : String := ""
  node : String := ""
  container : Container := {}
  templateHash : String := ""
  drain : Option DrainSpec := none
  deriving DecidableEq

structure InstanceStatus where
  phase : InstancePhase := .unspecified
  restarts : Int := 0
  instanceIp : String := ""
  containerId : String := ""
  message : String := ""
  deriving DecidableEq

structure Instance where
  metadata : Meta := {}
  spec : InstanceSpec := {}
  status : Option InstanceStatus := none
  deriving DecidableEq

structure VIPAllocation where
  metadata : Meta := {}
  service : String := ""
  node : String := ""
  vip : String := ""
  deriving DecidableEq

structure IngressAllocation where
  metadata : Meta := {}
  service : String := ""
  inst : String := ""
  node : String := ""
  port : Int := 0
  deriving DecidableEq

def Node.getStatus (n : Node) : NodeStatus := n.status.getD {}

def Instance.getStatus (i : Instance) : InstanceStatus := i.status.getD {}

def Instance.phase (i : Instance) : InstancePhase := i.getStatus.phase

def Node.phase (n : Node) : NodePhase := n.getStatus.phase

def Node.index (n : Node) : Int := n.getStatus.nodeIndex

-- Writing a field of `node.Status`, which is allocated when absent.
def Node.withStatus (n : Node) (f : NodeStatus → NodeStatus) : Node :=
  { n with status := some (f n.getStatus) }

inductive Kind where
  | workload
  | service
  | node
  | networkPolicy
  | inst
  | vipAllocation
  | ingressAllocation
  deriving DecidableEq

/- The message a kind's envelope wraps. Typing the store by it rules out a key of
one kind holding an object of another. -/
abbrev Kind.Obj : Kind → Type
  | .workload => Workload
  | .service => Service
  | .node => Node
  | .networkPolicy => NetworkPolicy
  | .inst => Instance
  | .vipAllocation => VIPAllocation
  | .ingressAllocation => IngressAllocation

/- The envelope of a message, over any family of messages. -/
structure Envelope (Msg : Kind → Type) where
  kind : Kind
  obj : Msg kind

abbrev Object := Envelope Kind.Obj

def Kind.name : Kind → String
  | .workload => "Workload"
  | .service => "Service"
  | .node => "Node"
  | .networkPolicy => "NetworkPolicy"
  | .inst => "Instance"
  | .vipAllocation => "VIPAllocation"
  | .ingressAllocation => "IngressAllocation"

def metaOf : {k : Kind} → k.Obj → Meta
  | .workload, o => Workload.metadata o
  | .service, o => Service.metadata o
  | .node, o => Node.metadata o
  | .networkPolicy, o => NetworkPolicy.metadata o
  | .inst, o => Instance.metadata o
  | .vipAllocation, o => VIPAllocation.metadata o
  | .ingressAllocation, o => IngressAllocation.metadata o

-- Writing through the pointer `MetaOf` returns.
def setMeta : {k : Kind} → k.Obj → Meta → k.Obj
  | .workload, o, m => ({ o with metadata := m } : Workload)
  | .service, o, m => ({ o with metadata := m } : Service)
  | .node, o, m => ({ o with metadata := m } : Node)
  | .networkPolicy, o, m => ({ o with metadata := m } : NetworkPolicy)
  | .inst, o, m => ({ o with metadata := m } : Instance)
  | .vipAllocation, o, m => ({ o with metadata := m } : VIPAllocation)
  | .ingressAllocation, o, m => ({ o with metadata := m } : IngressAllocation)

theorem metaOf_setMeta {k : Kind} (o : k.Obj) (m : Meta) : metaOf (setMeta o m) = m := by
  cases k <;> rfl

theorem setMeta_setMeta {k : Kind} (o : k.Obj) (m m' : Meta) : setMeta (setMeta o m) m' = setMeta o m' := by
  cases k <;> rfl

def labelPendingDelete : String := "klite.io/pending-delete"

def Node.pendingDelete (n : Node) : Bool := n.metadata.labels[labelPendingDelete]? = some "true"

end Klite
