import Mathlib.Data.Rat.Floor
import Klite.Lib.JsMap
import Klite.Store.Kv

/-!
# The objects of the browser's simulator (frontend/app/api/types.ts, frontend/app/store/store.ts)

The app's own types, as far as the simulator or its store read them. A field that may be
undefined is an `Option`. Names are DNS labels (schemas.ts), so a `Record` by name is a map.
-/

namespace Klite.Sim
open Lib

inductive InstancePhase where
  | pending
  | running
  | ready
  | draining
  | failed
  | terminating
  deriving DecidableEq

inductive NodePhase where
  | ready
  | notReady
  | draining
  deriving DecidableEq

structure ObjectMeta where
  name : String
  labels : Option (List (String × String)) := none
  uid : Option String := none
  resourceVersion : Option Int := none
  createdUnix : Option Int := none

structure ContainerSpec where
  name : String
  image : String
  command : Option (List String) := none
  args : Option (List String) := none
  env : Option (List (String × String)) := none
  ports : Option (List Int) := none
  readinessProbe : Option Int := none
  resources : Option (Option String × Option String) := none

structure DrainSpec where
  drainTimeoutSeconds : Option ℚ := none
  terminationGraceSeconds : Option ℚ := none

structure Template where
  labels : List (String × String)
  containers : List ContainerSpec

structure WorkloadSpec where
  replicas : Int
  nodeName : Option String := none
  template : Template
  drain : Option DrainSpec := none

structure WorkloadStatus where
  readyInstances : Int
  totalInstances : Int
  templateHash : Option String := none

structure Workload where
  spec : WorkloadSpec
  status : Option WorkloadStatus := none

structure Service where
  selector : List (String × String)
  port : Int
  targetPort : Int

structure Infra where
  ip : String
  ready : Bool

structure NodeStatus where
  phase : NodePhase
  unschedulable : Option Bool := none
  lastHeartbeatUnix : Option Int := none
  nodeIndex : Option Int := none
  instanceCount : Int
  advertiseAddress : Option String := none
  infra : Option Infra := none

structure Node where
  maxInstances : Int
  status : Option NodeStatus := none

inductive Action where
  | allow
  | deny
  deriving DecidableEq

structure PolicyRule where
  source : String
  target : String
  except : Option (List String) := none

structure NetworkPolicy where
  action : Action
  rules : List PolicyRule

/- The container of a workload without containers is undefined. -/
structure InstanceSpec where
  workload : String
  node : Option String := none
  container : Option ContainerSpec
  templateHash : Option String := none
  drain : Option DrainSpec := none

structure InstanceStatus where
  phase : InstancePhase
  restarts : Int
  instanceIp : Option String := none
  containerId : Option String := none
  message : Option String := none

structure Instance where
  spec : InstanceSpec
  status : InstanceStatus

structure VIPAllocation where
  service : String
  node : String
  vip : String

structure IngressAllocation where
  service : String
  inst : String
  node : String
  port : Int

abbrev Body : Kind → Type
  | .workload => Workload
  | .service => Service
  | .node => Node
  | .networkPolicy => NetworkPolicy
  | .inst => Instance
  | .vipAllocation => VIPAllocation
  | .ingressAllocation => IngressAllocation

/-- An object of a kind. -/
structure Obj (k : Kind) where
  metadata : ObjectMeta
  body : Body k

abbrev Obj.name {k : Kind} (o : Obj k) : String := o.metadata.name

def Obj.withRevision {k : Kind} (o : Obj k) (rev : Int) : Obj k :=
  { o with metadata := { o.metadata with resourceVersion := some rev } }

/-- A `KliteObject`. -/
abbrev KliteObject := Σ k : Kind, Obj k

-- Object.entries(selector).every(…); an object without labels matches nothing.
def selectorMatches (selector : List (String × String)) : Option (List (String × String)) → Bool
  | none => false
  | some labels => selector.all fun e => labels.lookup e.1 = some e.2

/-- The objects of a kind, by their names. -/
structure Shelf (k : Kind) where
  map : JsMap (Obj k) := {}
  named : map.All fun name o => o.name = name := by exact nofun

namespace Shelf

variable {k : Kind} (m : Shelf k)

def get (name : String) : Option (Obj k) := m.map.get name

def has (name : String) : Bool := m.map.has name

def keys : List String := m.map.keys

def values : List (Obj k) := m.map.values

def set (o : Obj k) : Shelf k := ⟨m.map.set o.name o, m.named.set rfl⟩

/-- The fields of an object are assigned, if the map still has it. -/
def replace (o : Obj k) : Shelf k := ⟨m.map.replace o.name o, m.named.replace rfl⟩

def delete (name : String) : Shelf k := ⟨m.map.delete name, m.named.delete name⟩

variable {m}

theorem name_of_get {name : String} {o : Obj k} (h : m.get name = some o) : o.name = name := m.named.get h

theorem get_of_mem {o : Obj k} (h : o ∈ m.values) : m.get o.name = some o := by
  obtain ⟨e, he, rfl⟩ := List.mem_map.mp h
  have hn : e.2.name = e.1 := m.named e he
  rw [hn]
  exact JsMap.get_of_mem he

theorem mem_of_get {name : String} {o : Obj k} (h : m.get name = some o) : o ∈ m.values :=
  List.mem_map.mpr ⟨_, JsMap.mem_of_get h, rfl⟩

theorem get_set (o : Obj k) (name : String) : (m.set o).get name = if o.name = name then some o else m.get name :=
  JsMap.get_set _ _ _

theorem get_replace (o : Obj k) (name : String) :
    (m.replace o).get name = if o.name = name ∧ m.has o.name then some o else m.get name := JsMap.get_replace _ _ _

theorem get_delete (name name' : String) : (m.delete name).get name' = if name = name' then none else m.get name' :=
  JsMap.get_delete _ _

end Shelf

/-! ### Watch events and the store -/

inductive WatchEvent where
  | reset
  | sync (rev : Int)
  | change (type : EventType) (rev : Int) (k : Kind) (object : Obj k)

structure Snapshot where
  rev : Int := 0
  synced : Bool := false
  objects : (k : Kind) → Std.ExtTreeMap String (Obj k) := fun _ => ∅

/-- `applyEvent` (store.ts:64). -/
def Snapshot.applyEvent (s : Snapshot) : WatchEvent → Snapshot
  | .reset => {}
  | .sync rev => { s with rev := rev, synced := true }
  | .change type rev k object =>
    { s with
      rev := rev
      objects := Function.update s.objects k
        (if type = .deleted then (s.objects k).erase object.name else (s.objects k).insert object.name object) }

end Klite.Sim
