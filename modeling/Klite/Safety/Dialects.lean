import Klite.Ui.Decode

/-!
# What the app reads off either dialect

Whatever the wire left out, the app's form has the fields the app walks: integers are
numbers, phases and actions have the names that are shown, and what protojson omits is
there with its zero.
-/

namespace Klite.Ui
open Lib

/-! ### The app's form of a message -/

def numberField (n : Int64) : Option Json := if n = 0 then none else some (.num (toDouble n.toInt))

def appMeta (m : Pb.Meta) : ObjectMeta where
  name := m.name
  labels := Pb.mapField m.labels
  uid := Pb.strField m.uid
  resourceVersion := numberField m.resourceVersion
  createdUnix := numberField m.createdUnix

def nodePhaseShown : List (Int32 × String) := [(1, "Ready"), (2, "NotReady"), (3, "Draining")]

def instancePhaseShown : List (Int32 × String) :=
  [(1, "Pending"), (2, "Running"), (3, "Ready"), (4, "Draining"), (5, "Failed"), (6, "Terminating")]

def policyActionShown : List (Int32 × String) := [(1, "ALLOW"), (2, "DENY")]

def shown (names : List (Int32 × String)) (n : Int32) : Option Json := (names.lookup n).map .str

/-- The fields of a template the app walks. -/
structure TemplateForm (t : Pb.Template) (d : Mapping) : Prop where
  labels : d["labels"]? = some (Pb.stringMap t.labels)
  containers : d["containers"]? = some (.arr (t.containers.map fun c => Pb.record c.fields))

def SpecForm : (k : Kind) → Pb.Msg k → Mapping → Prop
  | .workload, m, d =>
    let s := (Pb.Workload.spec m).getD {}
    d["replicas"]? = some (.num s.replicas.toInt) ∧
      ∃ t : Mapping, d["template"]? = some (.obj t.toList) ∧ TemplateForm (s.template.getD {}) t
  | .service, m, d => d["selector"]? = some (Pb.stringMap ((Pb.Service.spec m).getD {}).selector)
  | .networkPolicy, m, d =>
    let s := (Pb.NetworkPolicy.spec m).getD {}
    d["rules"]? = some (.arr (s.rules.map fun r => Pb.record r.fields)) ∧
      d["action"]? = shown policyActionShown s.action
  | _, _, _ => True

structure NodeStatusForm (s : Pb.NodeStatus) (d : Mapping) : Prop where
  phase : d["phase"]? = shown nodePhaseShown s.phase
  unschedulable : d["unschedulable"]? = some (.bool s.unschedulable)
  lastHeartbeatUnix : d["lastHeartbeatUnix"]? = numberField s.lastHeartbeatUnix
  instanceCount : d["instanceCount"]? = some (.num s.instanceCount.toInt)

structure InstanceStatusForm (s : Pb.InstanceStatus) (d : Mapping) : Prop where
  phase : d["phase"]? = shown instancePhaseShown s.phase
  restarts : d["restarts"]? = some (.num s.restarts.toInt)

/-- A status is there exactly when the message has one. -/
def StatusForm : (k : Kind) → Pb.Msg k → Option Mapping → Prop
  | .workload, m, d => d.isSome = (Pb.Workload.status m).isSome
  | .node, m, d => Option.Rel NodeStatusForm (Pb.Node.status m) d
  | .inst, m, d => Option.Rel InstanceStatusForm (Pb.Instance.status m) d
  | _, _, d => d = none

structure AppForm (o : Envelope Pb.Msg) (d : KliteObject) : Prop where
  kind : d.kind = o.kind
  metadata : d.metadata = appMeta ((Pb.metaOf o.obj).getD {})
  spec : SpecForm o.kind o.obj d.spec
  status : StatusForm o.kind o.obj d.status

/-- Every enum value has a name. -/
def KnownEnums : (k : Kind) → Pb.Msg k → Prop
  | .node, m => ∀ s, Pb.Node.status m = some s → (Pb.nodePhaseName.lookup s.phase).isSome
  | .inst, m => ∀ s, Pb.Instance.status m = some s → (Pb.instancePhaseName.lookup s.phase).isSome
  | .networkPolicy, m => ∀ s, Pb.NetworkPolicy.spec m = some s → (Pb.policyActionName.lookup s.action).isSome
  | _, _ => True

/-! ### Field by field -/

theorem number_int64 (n : Int64) : (Pb.int64Field n).map number = numberField n := by
  unfold Pb.int64Field numberField
  split
  · rfl
  · have hparse : parseInt (toString n.toInt) = some n.toInt := parseInt_int n.le_toInt n.toInt_lt
    rw [Option.map_some, number, hparse]

theorem getD_int32 (n : Int32) : (Pb.int32Field n).getD (.num 0) = .num n.toInt := by
  unfold Pb.int32Field
  split
  · next h =>
    rw [h]
    rfl
  · rfl

theorem getD_bool (b : Bool) : (Pb.boolField b).getD (.bool false) = .bool b := by
  cases b <;> rfl

theorem getD_map (m : Labels) : (Pb.mapField m).getD (.obj []) = Pb.stringMap m := by
  unfold Pb.mapField
  split
  · next h =>
    rw [Std.ExtTreeMap.isEmpty_iff.mp h]
    rfl
  · rfl

theorem getD_repeated {α : Type} (f : α → Pb.Fields) (l : List α) :
    (Pb.repeatedField f l).getD (.arr []) = .arr (l.map fun a => Pb.record (f a)) := by
  cases l <;> rfl

theorem shown_enum {names shownNames : List (Int32 × String)} {f : String → String} {g : Json → Json}
    (hg : ∀ s, g (.str s) = .str (f s)) (hzero : shownNames.lookup 0 = none)
    (hall : ∀ p ∈ names, p.1 ≠ 0 → shownNames.lookup p.1 = some (f p.2)) {n : Int32} (hn : (names.lookup n).isSome) :
    (Pb.enumField names n).map g = shown shownNames n := by
  unfold Pb.enumField shown
  by_cases h0 : n = 0
  · rw [if_pos h0, h0, hzero]
    rfl
  · obtain ⟨s, hs⟩ := Option.isSome_iff_exists.mp hn
    obtain ⟨l, l', hl, -⟩ := List.lookup_eq_some_iff.mp hs
    have hmem : (n, s) ∈ names := by
      rw [hl]
      exact List.mem_append_right l List.mem_cons_self
    rw [if_neg h0, hs, hall _ hmem h0]
    show some (g (.str s)) = some (.str (f s))
    rw [hg]

theorem toMeta_fields (m : Pb.Meta) : toMeta (Pb.mappingOf m.fields) = appMeta m := by
  have hget : ∀ key, (Pb.mappingOf m.fields)[key]? = (m.fields.lookup key).join :=
    Pb.get_mappingOf (by simp [Pb.Meta.fields])
  have hname : stringAt (Pb.mappingOf m.fields) "name" = m.name := by
    have hfield : (m.fields.lookup "name").join = Pb.strField m.name := rfl
    unfold stringAt
    rw [hget, hfield]
    unfold Pb.strField
    split <;> simp_all
  unfold toMeta appMeta
  rw [hname, hget, hget, hget, hget, ← number_int64, ← number_int64]
  rfl

section Body
variable {k : Kind} (m : Pb.Msg k)

theorem metadata_form : (decodeBody k (Pb.marshal k m)).metadata = appMeta ((Pb.metaOf m).getD {}) := by
  have hnone : given (Pb.marshal k m) "metadata" = none :=
    given_eq (Pb.marshal_other m (by decide) (by decide) (by decide)) nofun
  have hmeta := Pb.marshal_meta m
  show toMeta (asRecord ((given (Pb.marshal k m) "metadata").getD ((given (Pb.marshal k m) "meta").getD (.obj [])))) = _
  rw [hnone]
  cases h : Pb.metaOf m with
  | none =>
    rw [h] at hmeta
    rw [given_eq hmeta nofun]
    exact toMeta_fields {}
  | some mt =>
    rw [h] at hmeta
    rw [given_eq hmeta nofun]
    show toMeta (asRecord (Pb.record mt.fields)) = appMeta mt
    rw [asRecord_record, toMeta_fields]

theorem spec_record : asRecord ((given (Pb.marshal k m) "spec").getD (.obj [])) = Pb.mappingOf ((Pb.specOf m).getD []) := by
  have hspec := Pb.marshal_spec m
  cases h : Pb.specOf m with
  | none =>
    rw [h] at hspec
    rw [given_eq hspec nofun]
    rfl
  | some spec =>
    rw [h] at hspec
    rw [given_eq hspec nofun]
    exact asRecord_record spec

theorem status_record : (given (Pb.marshal k m) "status").map asRecord = (Pb.statusOf m).map Pb.mappingOf := by
  have hstatus := Pb.marshal_status m
  cases h : Pb.statusOf m with
  | none =>
    rw [h] at hstatus
    rw [given_eq hstatus nofun]
    rfl
  | some status =>
    rw [h] at hstatus
    rw [given_eq hstatus nofun]
    exact congrArg some (asRecord_record status)

end Body

/-! ### Kind by kind -/

theorem int32Field_ne_null (n : Int32) : Pb.int32Field n ≠ some .null := by
  unfold Pb.int32Field
  split <;> nofun

theorem boolField_ne_null (b : Bool) : Pb.boolField b ≠ some .null := by
  cases b <;> nofun

theorem mapField_ne_null (m : Labels) : Pb.mapField m ≠ some .null := by
  unfold Pb.mapField
  split <;> nofun

theorem repeatedField_ne_null {α : Type} (f : α → Pb.Fields) (l : List α) : Pb.repeatedField f l ≠ some .null := by
  cases l <;> nofun

theorem filled_in {m : Mapping} {key : String} {field : Option Json} {v : Json} (h : m[key]? = field)
    (hne : field ≠ some .null) : (setDefault m key v)[key]? = some (field.getD v) := by
  rw [get_setDefault, if_pos rfl, given_eq h hne]

theorem mappingOf_getD {α : Type} {f : α → Pb.Fields} (zero : α) (hzero : Pb.mappingOf (f zero) = Pb.mappingOf [])
    (a : Option α) : Pb.mappingOf ((a.map f).getD []) = Pb.mappingOf (f (a.getD zero)) := by
  cases a with
  | none => exact hzero.symm
  | some a => rfl

theorem template_form (t : Pb.Template) :
    TemplateForm t (setDefault (setDefault (Pb.mappingOf t.fields) "labels" (.obj [])) "containers" (.arr [])) := by
  have hget : ∀ key, (Pb.mappingOf t.fields)[key]? = (t.fields.lookup key).join :=
    Pb.get_mappingOf (by simp [Pb.Template.fields])
  constructor
  · have hlabels : (Pb.mappingOf t.fields)["labels"]? = Pb.mapField t.labels := hget "labels"
    rw [get_setDefault, if_neg (by decide), filled_in hlabels (mapField_ne_null _), getD_map]
  · have hcontainers : (setDefault (Pb.mappingOf t.fields) "labels" (.obj []))["containers"]? =
        Pb.repeatedField Pb.Container.fields t.containers := by
      rw [get_setDefault, if_neg (by decide)]
      exact hget "containers"
    rw [filled_in hcontainers (repeatedField_ne_null _ _), getD_repeated]

theorem workload_form (s : Pb.WorkloadSpec) :
    (fillSpec .workload (Pb.mappingOf s.fields))["replicas"]? = some (.num s.replicas.toInt) ∧
      ∃ t : Mapping, (fillSpec .workload (Pb.mappingOf s.fields))["template"]? = some (.obj t.toList) ∧
        TemplateForm (s.template.getD {}) t := by
  have hget := Pb.get_mappingOf (show (s.fields.map (·.1)).Nodup by simp [Pb.WorkloadSpec.fields])
  have hreplicas : (Pb.mappingOf s.fields)["replicas"]? = Pb.int32Field s.replicas := hget "replicas"
  have htemplate : (setDefault (Pb.mappingOf s.fields) "replicas" (.num 0))["template"]? =
      Pb.messageField Pb.Template.fields s.template := by
    rw [get_setDefault, if_neg (by decide)]
    exact hget "template"
  have hne : Pb.messageField Pb.Template.fields s.template ≠ some .null := by
    intro hnull
    obtain ⟨t, -, ht⟩ := Option.map_eq_some_iff.mp hnull
    cases ht
  have hrecord : asRecord ((Pb.messageField Pb.Template.fields s.template).getD (.obj [])) =
      Pb.mappingOf (s.template.getD {}).fields := by
    cases s.template with
    | none => rfl
    | some t => exact asRecord_record t.fields
  unfold fillSpec
  dsimp only
  constructor
  · rw [Table.get_insert, if_neg (by decide), get_setDefault, if_neg (by decide),
      filled_in hreplicas (int32Field_ne_null _), getD_int32]
  · refine ⟨_, by rw [Table.get_insert, if_pos rfl], ?_⟩
    rw [filled_in htemplate hne, Option.getD_some, hrecord]
    exact template_form _

theorem service_form (s : Pb.ServiceSpec) :
    (fillSpec .service (Pb.mappingOf s.fields))["selector"]? = some (Pb.stringMap s.selector) := by
  have hget : (Pb.mappingOf s.fields)["selector"]? = Pb.mapField s.selector :=
    Pb.get_mappingOf (by simp [Pb.ServiceSpec.fields]) "selector"
  unfold fillSpec
  dsimp only
  rw [filled_in hget (mapField_ne_null _), getD_map]

theorem policy_form (s : Pb.NetworkPolicySpec) (hknown : (Pb.policyActionName.lookup s.action).isSome) :
    (amend (fillSpec .networkPolicy (Pb.mappingOf s.fields)) "action" shortAction)["rules"]? =
        some (.arr (s.rules.map fun r => Pb.record r.fields)) ∧
      (amend (fillSpec .networkPolicy (Pb.mappingOf s.fields)) "action" shortAction)["action"]? =
        shown policyActionShown s.action := by
  have hget := Pb.get_mappingOf (show (s.fields.map (·.1)).Nodup by simp [Pb.NetworkPolicySpec.fields])
  have hrules : (Pb.mappingOf s.fields)["rules"]? = Pb.repeatedField Pb.PolicyRule.fields s.rules := hget "rules"
  have haction : (Pb.mappingOf s.fields)["action"]? = Pb.enumField Pb.policyActionName s.action := hget "action"
  unfold fillSpec
  dsimp only
  constructor
  · rw [get_amend, if_neg (by decide), filled_in hrules (repeatedField_ne_null _ _), getD_repeated]
  · rw [get_amend, if_pos rfl, get_setDefault, if_neg (by decide), haction]
    exact shown_enum (fun _ => rfl) rfl (by decide) hknown

theorem node_form (s : Pb.NodeStatus) (hknown : (Pb.nodePhaseName.lookup s.phase).isSome) :
    NodeStatusForm s (amend (fillStatus .node (Pb.mappingOf s.fields)) "phase" displayEnum) := by
  have hget := Pb.get_mappingOf (show (s.fields.map (·.1)).Nodup by simp [Pb.NodeStatus.fields])
  have hphase : (Pb.mappingOf s.fields)["phase"]? = Pb.enumField Pb.nodePhaseName s.phase := hget "phase"
  have hbeat : (Pb.mappingOf s.fields)["lastHeartbeatUnix"]? = Pb.int64Field s.lastHeartbeatUnix := hget "lastHeartbeatUnix"
  have hcount : (Pb.mappingOf s.fields)["instanceCount"]? = Pb.int32Field s.instanceCount := hget "instanceCount"
  have hcordon : (setDefault (Pb.mappingOf s.fields) "instanceCount" (.num 0))["unschedulable"]? =
      Pb.boolField s.unschedulable := by
    rw [get_setDefault, if_neg (by decide)]
    exact hget "unschedulable"
  unfold fillStatus
  dsimp only
  constructor
  · rw [get_amend, if_pos rfl, get_amend, if_neg (by decide), get_amend, if_neg (by decide), get_setDefault,
      if_neg (by decide), get_setDefault, if_neg (by decide), hphase]
    exact shown_enum (fun _ => rfl) rfl (by decide) hknown
  · rw [get_amend, if_neg (by decide), get_amend, if_neg (by decide), get_amend, if_neg (by decide),
      filled_in hcordon (boolField_ne_null _), getD_bool]
  · rw [get_amend, if_neg (by decide), get_amend, if_neg (by decide), get_amend, if_pos rfl, get_setDefault,
      if_neg (by decide), get_setDefault, if_neg (by decide), hbeat, number_int64]
  · rw [get_amend, if_neg (by decide), get_amend, if_neg (by decide), get_amend, if_neg (by decide), get_setDefault,
      if_neg (by decide), filled_in hcount (int32Field_ne_null _), getD_int32]

theorem instance_form (s : Pb.InstanceStatus) (hknown : (Pb.instancePhaseName.lookup s.phase).isSome) :
    InstanceStatusForm s (amend (fillStatus .inst (Pb.mappingOf s.fields)) "phase" displayEnum) := by
  have hget := Pb.get_mappingOf (show (s.fields.map (·.1)).Nodup by simp [Pb.InstanceStatus.fields])
  have hphase : (Pb.mappingOf s.fields)["phase"]? = Pb.enumField Pb.instancePhaseName s.phase := hget "phase"
  have hrestarts : (Pb.mappingOf s.fields)["restarts"]? = Pb.int32Field s.restarts := hget "restarts"
  unfold fillStatus
  dsimp only
  constructor
  · rw [get_amend, if_pos rfl, get_setDefault, if_neg (by decide), hphase]
    exact shown_enum (fun _ => rfl) rfl (by decide) hknown
  · rw [get_amend, if_neg (by decide), filled_in hrestarts (int32Field_ne_null _), getD_int32]

theorem decodeBody_form (o : Envelope Pb.Msg) (hknown : KnownEnums o.kind o.obj) :
    AppForm o (decodeBody o.kind (Pb.marshal o.kind o.obj)) := by
  have hstatus : (decodeBody o.kind (Pb.marshal o.kind o.obj)).status =
      (Pb.statusOf o.obj).map fun s => amend (fillStatus o.kind (Pb.mappingOf s)) "phase" displayEnum := by
    have h := congrArg (Option.map fun s => amend (fillStatus o.kind s) "phase" displayEnum) (status_record o.obj)
    rw [Option.map_map, Option.map_map] at h
    unfold decodeBody
    dsimp only
    rw [Option.map_map]
    exact h
  have hspec : (decodeBody o.kind (Pb.marshal o.kind o.obj)).spec =
      if o.kind = .networkPolicy then
        amend (fillSpec o.kind (Pb.mappingOf ((Pb.specOf o.obj).getD []))) "action" shortAction
      else fillSpec o.kind (Pb.mappingOf ((Pb.specOf o.obj).getD [])) := by
    rw [← spec_record]
    rfl
  refine ⟨rfl, metadata_form o.obj, ?_, ?_⟩
  · rw [hspec]
    obtain ⟨k, m⟩ := o
    cases k with
    | workload =>
      rw [if_neg nofun, show Pb.specOf (k := .workload) m = (Pb.Workload.spec m).map Pb.WorkloadSpec.fields from rfl,
        mappingOf_getD {} rfl]
      exact workload_form _
    | service =>
      rw [if_neg nofun, show Pb.specOf (k := .service) m = (Pb.Service.spec m).map Pb.ServiceSpec.fields from rfl,
        mappingOf_getD {} rfl]
      exact service_form _
    | networkPolicy =>
      rw [if_pos rfl,
        show Pb.specOf (k := .networkPolicy) m = (Pb.NetworkPolicy.spec m).map Pb.NetworkPolicySpec.fields from rfl,
        mappingOf_getD {} rfl]
      refine policy_form _ ?_
      cases hs : Pb.NetworkPolicy.spec m with
      | none => rfl
      | some s => exact hknown s hs
    | _ => trivial
  · rw [hstatus]
    obtain ⟨k, m⟩ := o
    cases k with
    | workload =>
      show ((Pb.Workload.status m).map Pb.WorkloadStatus.fields |>.map _).isSome = _
      simp
    | node =>
      show Option.Rel NodeStatusForm (Pb.Node.status m) (((Pb.Node.status m).map Pb.NodeStatus.fields).map _)
      cases hs : Pb.Node.status m with
      | none => exact .none
      | some s => exact .some (node_form s (hknown s hs))
    | inst =>
      show Option.Rel InstanceStatusForm (Pb.Instance.status m) (((Pb.Instance.status m).map Pb.InstanceStatus.fields).map _)
      cases hs : Pb.Instance.status m with
      | none => exact .none
      | some s => exact .some (instance_form s (hknown s hs))
    | _ => rfl

/-- The two wire dialects decode alike: a list's JSON and a watch event's come to the same object, in the app's form.
`marshalEvent` is the library's rendering of the event's envelope. -/
theorem dialects_decode_alike (C : CodecOf Pb.Msg) (hC : C.marshal = Pb.marshal)
    (marshalEvent : Envelope Pb.Msg → Mapping) (hevent : marshalEvent = Pb.marshalObject) (o : Envelope Pb.Msg)
    (hknown : KnownEnums o.kind o.obj) : ∃ d, decodeObject (.obj (encodeJSON C o).toList) = some d ∧
      decodeObject (.obj (marshalEvent o).toList) = some d ∧ AppForm o d := by
  obtain ⟨hlist, hwatch⟩ := decodeObject_agree hC o
  refine ⟨_, hlist, ?_, decodeBody_form o hknown⟩
  rw [hevent]
  exact hwatch

def drainingNode : Pb.Node where
  status := some { phase := 3, lastHeartbeatUnix := 1756600000 }

theorem dialects_decode_alike_node :
    ∃ d, decodeObject (.obj (encodeJSON Pb.protojsonOnly ⟨.node, drainingNode⟩).toList) = some d ∧
      decodeObject (.obj (Pb.marshalObject ⟨.node, drainingNode⟩).toList) = some d ∧ AppForm ⟨.node, drainingNode⟩ d := by
  refine dialects_decode_alike Pb.protojsonOnly rfl Pb.marshalObject rfl ⟨.node, drainingNode⟩ ?_
  intro s hs
  cases hs
  rfl

end Klite.Ui
