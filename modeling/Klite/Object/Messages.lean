import Klite.Object.Codec

/-!
# The messages and their protojson (api/proto/klite/v1/objects.proto, meta.proto)

The messages as the wire knows them: a submessage may be absent, an integer has its width,
an enum is a number that a name may or may not exist for. The JSON of a message leaves out
what is zero, empty or absent, writes an `int64` as its text and an enum by its name. An
object of it is listed by its keys, as `json.Marshal` writes a map; the order in which
protojson writes the keys is no part of the value.
-/

namespace Klite.Pb
open Lib

structure Meta where
  name : String := ""
  labels : Labels := ∅
  uid : String := ""
  resourceVersion : Int64 := 0
  createdUnix : Int64 := 0

structure EnvVar where
  name : String := ""
  value : String := ""

structure Port where
  containerPort : Int32 := 0

structure Resources where
  cpus : String := ""
  memory : String := ""

structure ReadinessProbe where
  tcpPort : Int32 := 0

structure Container where
  name : String := ""
  image : String := ""
  command : List String := []
  args : List String := []
  env : List EnvVar := []
  ports : List Port := []
  resources : Option Resources := none
  readinessProbe : Option ReadinessProbe := none

structure Template where
  labels : Labels := ∅
  containers : List Container := []

structure DrainSpec where
  drainTimeoutSeconds : Int32 := 0
  terminationGraceSeconds : Int32 := 0

structure WorkloadSpec where
  replicas : Int32 := 0
  nodeName : String := ""
  template : Option Template := none
  drain : Option DrainSpec := none

structure WorkloadStatus where
  readyInstances : Int32 := 0
  totalInstances : Int32 := 0
  templateHash : String := ""

structure Workload where
  metadata : Option Meta := none
  spec : Option WorkloadSpec := none
  status : Option WorkloadStatus := none

structure ServiceSpec where
  selector : Labels := ∅
  port : Int32 := 0
  targetPort : Int32 := 0

structure Service where
  metadata : Option Meta := none
  spec : Option ServiceSpec := none

structure NodeSpec where
  maxInstances : Int32 := 0

structure NodeStatus where
  phase : Int32 := 0
  unschedulable : Bool := false
  lastHeartbeatUnix : Int64 := 0
  nodeIndex : Int32 := 0
  instanceCount : Int32 := 0
  advertiseAddress : String := ""

structure Node where
  metadata : Option Meta := none
  spec : Option NodeSpec := none
  status : Option NodeStatus := none

structure PolicyRule where
  source : String := ""
  target : String := ""
  except : List String := []

structure NetworkPolicySpec where
  action : Int32 := 0
  rules : List PolicyRule := []

structure NetworkPolicy where
  metadata : Option Meta := none
  spec : Option NetworkPolicySpec := none

structure InstanceSpec where
  workload : String := ""
  node : String := ""
  container : Option Container := none
  templateHash : String := ""
  drain : Option DrainSpec := none

structure InstanceStatus where
  phase : Int32 := 0
  restarts : Int32 := 0
  instanceIp : String := ""
  containerId : String := ""
  message : String := ""

structure Instance where
  metadata : Option Meta := none
  spec : Option InstanceSpec := none
  status : Option InstanceStatus := none

structure VIPAllocationSpec where
  service : String := ""
  node : String := ""
  vip : String := ""

structure VIPAllocation where
  metadata : Option Meta := none
  spec : Option VIPAllocationSpec := none

structure IngressAllocationSpec where
  service : String := ""
  inst : String := ""
  node : String := ""
  port : Int32 := 0

structure IngressAllocation where
  metadata : Option Meta := none
  spec : Option IngressAllocationSpec := none

abbrev Msg : Kind → Type
  | .workload => Workload
  | .service => Service
  | .node => Node
  | .networkPolicy => NetworkPolicy
  | .inst => Instance
  | .vipAllocation => VIPAllocation
  | .ingressAllocation => IngressAllocation

def nodePhaseName : List (Int32 × String) :=
  [(0, "NODE_PHASE_UNSPECIFIED"), (1, "NODE_PHASE_READY"), (2, "NODE_PHASE_NOT_READY"), (3, "NODE_PHASE_DRAINING")]

def policyActionName : List (Int32 × String) :=
  [(0, "POLICY_ACTION_UNSPECIFIED"), (1, "POLICY_ACTION_ALLOW"), (2, "POLICY_ACTION_DENY")]

def instancePhaseName : List (Int32 × String) :=
  [(0, "INSTANCE_PHASE_UNSPECIFIED"), (1, "INSTANCE_PHASE_PENDING"), (2, "INSTANCE_PHASE_RUNNING"),
    (3, "INSTANCE_PHASE_READY"), (4, "INSTANCE_PHASE_DRAINING"), (5, "INSTANCE_PHASE_FAILED"),
    (6, "INSTANCE_PHASE_TERMINATING")]

/-! ### protojson.Marshal, field by field -/

/-- The fields of a message by their JSON names; the value of a field that is left out is `none`. -/
abbrev Fields := List (String × Option Json)

def mappingOf (fields : Fields) : Mapping :=
  Table.fill ∅ (fields.filterMap fun f => f.2.map fun v => (f.1, v))

def record (fields : Fields) : Json := .obj (mappingOf fields).toList

def strField (s : String) : Option Json := if s = "" then none else some (.str s)

def int32Field (n : Int32) : Option Json := if n = 0 then none else some (.num n.toInt)

def int64Field (n : Int64) : Option Json := if n = 0 then none else some (.str (toString n.toInt))

def boolField (b : Bool) : Option Json := if b then some (.bool true) else none

-- A number that has no name is written as a number.
def enumField (names : List (Int32 × String)) (n : Int32) : Option Json :=
  if n = 0 then none
  else
    match names.lookup n with
    | some s => some (.str s)
    | none => some (.num n.toInt)

def stringsField (l : List String) : Option Json := if l.isEmpty then none else some (.arr (l.map .str))

def stringMap (m : Labels) : Json := .obj (m.toList.map fun e => (e.1, .str e.2))

def mapField (m : Labels) : Option Json := if m.isEmpty then none else some (stringMap m)

section Field
variable {α : Type} (f : α → Fields)

def messageField (a : Option α) : Option Json := a.map fun a => record (f a)

def repeatedField (l : List α) : Option Json := if l.isEmpty then none else some (.arr (l.map fun a => record (f a)))

end Field

def Meta.fields (m : Meta) : Fields :=
  [("name", strField m.name), ("labels", mapField m.labels), ("uid", strField m.uid),
    ("resourceVersion", int64Field m.resourceVersion), ("createdUnix", int64Field m.createdUnix)]

def EnvVar.fields (e : EnvVar) : Fields := [("name", strField e.name), ("value", strField e.value)]

def Port.fields (p : Port) : Fields := [("containerPort", int32Field p.containerPort)]

def Resources.fields (r : Resources) : Fields := [("cpus", strField r.cpus), ("memory", strField r.memory)]

def ReadinessProbe.fields (p : ReadinessProbe) : Fields := [("tcpPort", int32Field p.tcpPort)]

def Container.fields (c : Container) : Fields :=
  [("name", strField c.name), ("image", strField c.image), ("command", stringsField c.command),
    ("args", stringsField c.args), ("env", repeatedField EnvVar.fields c.env),
    ("ports", repeatedField Port.fields c.ports), ("resources", messageField Resources.fields c.resources),
    ("readinessProbe", messageField ReadinessProbe.fields c.readinessProbe)]

def Template.fields (t : Template) : Fields :=
  [("labels", mapField t.labels), ("containers", repeatedField Container.fields t.containers)]

def DrainSpec.fields (d : DrainSpec) : Fields :=
  [("drainTimeoutSeconds", int32Field d.drainTimeoutSeconds),
    ("terminationGraceSeconds", int32Field d.terminationGraceSeconds)]

def WorkloadSpec.fields (s : WorkloadSpec) : Fields :=
  [("replicas", int32Field s.replicas), ("nodeName", strField s.nodeName),
    ("template", messageField Template.fields s.template), ("drain", messageField DrainSpec.fields s.drain)]

def WorkloadStatus.fields (s : WorkloadStatus) : Fields :=
  [("readyInstances", int32Field s.readyInstances), ("totalInstances", int32Field s.totalInstances),
    ("templateHash", strField s.templateHash)]

def ServiceSpec.fields (s : ServiceSpec) : Fields :=
  [("selector", mapField s.selector), ("port", int32Field s.port), ("targetPort", int32Field s.targetPort)]

def NodeSpec.fields (s : NodeSpec) : Fields := [("maxInstances", int32Field s.maxInstances)]

def NodeStatus.fields (s : NodeStatus) : Fields :=
  [("phase", enumField nodePhaseName s.phase), ("unschedulable", boolField s.unschedulable),
    ("lastHeartbeatUnix", int64Field s.lastHeartbeatUnix), ("nodeIndex", int32Field s.nodeIndex),
    ("instanceCount", int32Field s.instanceCount), ("advertiseAddress", strField s.advertiseAddress)]

def PolicyRule.fields (r : PolicyRule) : Fields :=
  [("from", strField r.source), ("to", strField r.target), ("except", stringsField r.except)]

def NetworkPolicySpec.fields (s : NetworkPolicySpec) : Fields :=
  [("action", enumField policyActionName s.action), ("rules", repeatedField PolicyRule.fields s.rules)]

def InstanceSpec.fields (s : InstanceSpec) : Fields :=
  [("workload", strField s.workload), ("node", strField s.node), ("container", messageField Container.fields s.container),
    ("templateHash", strField s.templateHash), ("drain", messageField DrainSpec.fields s.drain)]

def InstanceStatus.fields (s : InstanceStatus) : Fields :=
  [("phase", enumField instancePhaseName s.phase), ("restarts", int32Field s.restarts),
    ("instanceIp", strField s.instanceIp), ("containerId", strField s.containerId), ("message", strField s.message)]

def VIPAllocationSpec.fields (s : VIPAllocationSpec) : Fields :=
  [("service", strField s.service), ("node", strField s.node), ("vip", strField s.vip)]

def IngressAllocationSpec.fields (s : IngressAllocationSpec) : Fields :=
  [("service", strField s.service), ("instance", strField s.inst), ("node", strField s.node),
    ("port", int32Field s.port)]

/-- Every kind has metadata. -/
def metaOf : {k : Kind} → Msg k → Option Meta
  | .workload, m => Workload.metadata m
  | .service, m => Service.metadata m
  | .node, m => Node.metadata m
  | .networkPolicy, m => NetworkPolicy.metadata m
  | .inst, m => Instance.metadata m
  | .vipAllocation, m => VIPAllocation.metadata m
  | .ingressAllocation, m => IngressAllocation.metadata m

def specOf : {k : Kind} → Msg k → Option Fields
  | .workload, m => (Workload.spec m).map WorkloadSpec.fields
  | .service, m => (Service.spec m).map ServiceSpec.fields
  | .node, m => (Node.spec m).map NodeSpec.fields
  | .networkPolicy, m => (NetworkPolicy.spec m).map NetworkPolicySpec.fields
  | .inst, m => (Instance.spec m).map InstanceSpec.fields
  | .vipAllocation, m => (VIPAllocation.spec m).map VIPAllocationSpec.fields
  | .ingressAllocation, m => (IngressAllocation.spec m).map IngressAllocationSpec.fields

-- The other kinds have no status.
def statusOf : {k : Kind} → Msg k → Option Fields
  | .workload, m => (Workload.status m).map WorkloadStatus.fields
  | .node, m => (Node.status m).map NodeStatus.fields
  | .inst, m => (Instance.status m).map InstanceStatus.fields
  | _, _ => none

def fieldsOf {k : Kind} (m : Msg k) : Fields :=
  [("meta", messageField Meta.fields (metaOf m)), ("spec", (specOf m).map record), ("status", (statusOf m).map record)]

/-- What is assumed of `protojson.Marshal`, for a kind's message. -/
def marshal (k : Kind) (m : Msg k) : Mapping := mappingOf (fieldsOf m)

/-- The field of the envelope's oneof. -/
def oneofField : Kind → String
  | .workload => "workload"
  | .service => "service"
  | .node => "node"
  | .networkPolicy => "networkPolicy"
  | .inst => "instance"
  | .vipAllocation => "vipAllocation"
  | .ingressAllocation => "ingressAllocation"

/-- What is assumed of `protojson.Marshal`, for an envelope whose message is present. -/
def marshalObject (o : Envelope Msg) : Mapping :=
  (∅ : Mapping).insert (oneofField o.kind) (.obj (marshal o.kind o.obj).toList)

def protojsonOnly : CodecOf Msg := rendersOnly marshal

/-! ### Reading a field back -/

theorem get_mappingOf {fields : Fields} (h : (fields.map (·.1)).Nodup) (key : String) :
    (mappingOf fields)[key]? = (fields.lookup key).join := by
  have hsub : ((fields.filterMap fun f => f.2.map fun v => (f.1, v)).map (·.1)).Sublist (fields.map (·.1)) := by
    clear h
    induction fields with
    | nil => exact .slnil
    | cons f fields ih =>
      obtain ⟨k, _ | v⟩ := f
      · exact ih.cons k
      · exact ih.cons_cons k
  unfold mappingOf
  rw [Table.get_fill_lookup (h.sublist hsub)]
  clear hsub
  induction fields with
  | nil => rfl
  | cons f fields ih =>
    rw [List.map_cons, List.nodup_cons] at h
    obtain ⟨k, v⟩ := f
    rw [List.lookup_cons]
    by_cases hk : key = k
    · subst hk
      rw [beq_self_eq_true]
      cases v with
      | none =>
        -- No later field has the key.
        have hlast : fields.lookup key = none := by
          rw [List.lookup_eq_none_iff]
          intro p hp
          exact bne_iff_ne.mpr fun hkey => h.1 (List.mem_map.mpr ⟨p, hp, hkey.symm⟩)
        rw [List.filterMap_cons_none (by rfl), ih h.2, hlast]
        rfl
      | some v =>
        rw [List.filterMap_cons_some (by rfl), List.lookup_cons, beq_self_eq_true]
        rfl
    · rw [beq_eq_false_iff_ne.mpr hk, ← ih h.2]
      cases v with
      | none => rw [List.filterMap_cons_none (by rfl)]
      | some v => rw [List.filterMap_cons_some (by rfl), List.lookup_cons, beq_eq_false_iff_ne.mpr hk]

theorem lookup_record {fields : Fields} (h : (fields.map (·.1)).Nodup) (key : String) :
    (mappingOf fields).toList.lookup key = (fields.lookup key).join := by
  rw [Table.lookup_toList, get_mappingOf h]

section Marshal
variable {k : Kind} (m : Msg k)

theorem get_marshal (key : String) : (marshal k m)[key]? = ((fieldsOf m).lookup key).join :=
  get_mappingOf (by simp [fieldsOf]) key

theorem marshal_meta : (marshal k m)["meta"]? = messageField Meta.fields (metaOf m) := get_marshal m "meta"

theorem marshal_spec : (marshal k m)["spec"]? = (specOf m).map record := get_marshal m "spec"

theorem marshal_status : (marshal k m)["status"]? = (statusOf m).map record := get_marshal m "status"

theorem marshal_other {key : String} (hmeta : key ≠ "meta") (hspec : key ≠ "spec") (hstatus : key ≠ "status") :
    (marshal k m)[key]? = none := by
  rw [get_marshal]
  simp [fieldsOf, List.lookup_cons, beq_eq_false_iff_ne.mpr hmeta, beq_eq_false_iff_ne.mpr hspec,
    beq_eq_false_iff_ne.mpr hstatus]

variable {m}

theorem spec_nodup {spec : Fields} (h : specOf m = some spec) : (spec.map (·.1)).Nodup := by
  cases k <;>
  · obtain ⟨s, -, rfl⟩ := Option.map_eq_some_iff.mp h
    simp [WorkloadSpec.fields, ServiceSpec.fields, NodeSpec.fields, NetworkPolicySpec.fields, InstanceSpec.fields,
      VIPAllocationSpec.fields, IngressAllocationSpec.fields]

end Marshal

theorem marshal_fields (k : Kind) (m : Msg k) : ∀ key ∈ marshal k m, key ∈ jsonFields k := by
  intro key hkey
  rw [Std.ExtTreeMap.mem_iff_isSome_getElem?] at hkey
  by_cases hmeta : key = "meta"
  · subst hmeta
    cases k <;> decide
  · by_cases hspec : key = "spec"
    · subst hspec
      cases k <;> decide
    · by_cases hstatus : key = "status"
      · subst hstatus
        rw [marshal_status] at hkey
        cases k with
        | workload => decide
        | node => decide
        | inst => decide
        | _ => cases hkey
      · rw [marshal_other m hmeta hspec hstatus] at hkey
        cases hkey

theorem marshal_action (k : Kind) (m : Msg k) (a : String) (h : actionOf (marshal k m) = some (.str a)) :
    a ≠ "ALLOW" ∧ a ≠ "DENY" := by
  unfold actionOf at h
  rw [marshal_spec] at h
  cases hspec : specOf m with
  | none =>
    rw [hspec] at h
    cases h
  | some spec =>
    rw [hspec] at h
    have hlookup : (spec.lookup "action").join = some (.str a) := (lookup_record (spec_nodup hspec) "action").symm.trans h
    cases k with
    | networkPolicy =>
      obtain ⟨s, -, rfl⟩ := Option.map_eq_some_iff.mp hspec
      have haction : enumField policyActionName s.action = some (.str a) := hlookup
      unfold enumField at haction
      split at haction
      · cases haction
      · split at haction
        · next name hname =>
          obtain rfl := Json.str.inj (Option.some.inj haction)
          obtain ⟨l, l', hl, -⟩ := List.lookup_eq_some_iff.mp hname
          have hnames : ∀ p ∈ policyActionName, p.2 ≠ "ALLOW" ∧ p.2 ≠ "DENY" := by decide
          exact hnames (s.action, name) (by rw [hl]; exact List.mem_append_right l List.mem_cons_self)
        · cases haction
    | _ =>
      obtain ⟨s, -, rfl⟩ := Option.map_eq_some_iff.mp hspec
      cases hlookup

end Klite.Pb
