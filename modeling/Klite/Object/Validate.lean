import Klite.Object.Text
import Klite.Object.Types

/-!
# Defaults and validation (internal/object/default.go, internal/object/validate.go)

A check answers the text of its error, `none` when the value passes.
-/

namespace Klite

-- `%q` on a name without anything to escape.
def quote (s : String) : String := "\"" ++ s ++ "\""

def defaultDrainTimeoutSeconds : Int := 30
def defaultTerminationGraceSeconds : Int := 15
def defaultMaxInstances : Int := 32

-- Proto3 cannot tell a written zero from an omitted field.
def orDefault (v d : Int) : Int := if v = 0 then d else v

def defaultWorkload (w : Workload) : Workload :=
  let d := w.spec.drain.getD {}
  let d' : DrainSpec :=
    { drainTimeoutSeconds := orDefault d.drainTimeoutSeconds defaultDrainTimeoutSeconds
      terminationGraceSeconds := orDefault d.terminationGraceSeconds defaultTerminationGraceSeconds }
  { w with spec.drain := some d' }

def defaultService (s : Service) : Service :=
  { s with spec.targetPort := orDefault s.spec.targetPort s.spec.port }

def defaultNode (n : Node) : Node :=
  { n with spec.maxInstances := orDefault n.spec.maxInstances defaultMaxInstances }

-- `Default` (default.go:15).
def applyDefault : (k : Kind) → k.Obj → k.Obj
  | .workload, o => defaultWorkload o
  | .service, o => defaultService o
  | .node, o => defaultNode o
  | .networkPolicy, o => o
  | .inst, o => o
  | .vipAllocation, o => o
  | .ingressAllocation, o => o

def maxNameLen : Nat := 63
def maxLabelLen : Nat := 63
def maxPort : Int := 65535
def maxReplicas : Int := 1000

def labelEdge (c : Char) : Bool := ('a' ≤ c && c ≤ 'z') || ('0' ≤ c && c ≤ '9')

-- ^[a-z0-9]([-a-z0-9]*[a-z0-9])?$
def dnsLabel (name : String) : Bool :=
  let cs := name.toList
  cs.all (fun c => labelEdge c || c = '-') &&
    (cs.head?.any labelEdge) && (cs.getLast?.any labelEdge)

def validateName (name : String) : Option String :=
  if name = "" then some "metadata.name is required"
  else if name.utf8ByteSize > maxNameLen then
    some ("name " ++ quote name ++ " exceeds " ++ toString maxNameLen ++ " characters")
  else if !dnsLabel name then
    some ("name " ++ quote name ++ " must be a DNS label (lowercase alphanumerics and dashes)")
  else none

def validateLabel (field k v : String) : Option String :=
  if k = "" then some (field ++ ": label key must not be empty")
  else if k.utf8ByteSize > maxLabelLen then
    some (field ++ ": label key " ++ quote k ++ " exceeds " ++ toString maxLabelLen ++ " characters")
  else if v.utf8ByteSize > maxLabelLen then
    some (field ++ ": value of label " ++ quote k ++ " exceeds " ++ toString maxLabelLen ++ " characters")
  else none

-- The map lists its keys in order, as the sorted loop of the source does.
def validateLabels (field : String) (labels : Labels) : Option String :=
  labels.toList.findSome? fun e => validateLabel field e.1 e.2

def validatePort (field : String) (p : Int) : Option String :=
  if p < 1 ∨ p > maxPort then
    some (field ++ " " ++ toString p ++ " is outside 1-" ++ toString maxPort)
  else none

def validateEnv (env : List EnvVar) : Option String :=
  env.zipIdx.findSome? fun e =>
    if e.1.name = "" then some ("env " ++ toString (e.2 + 1) ++ ": name is required") else none

def validateContainer (c : Container) : Option String :=
  if c.image = "" then some "container image is required"
  else (validateEnv c.env).or <|
    (c.ports.findSome? (validatePort "containerPort")).or <|
      c.readinessProbe.bind (validatePort "readinessProbe.tcpPort")

def validateContainers (cs : List Container) : Option String :=
  match cs with
  | [c] => validateContainer c
  | _ => some ("template must hold exactly one container, got " ++ toString cs.length)

def validateWorkload (w : Workload) : Option String :=
  if w.spec.replicas < 0 ∨ w.spec.replicas > maxReplicas then
    some ("replicas must be 0-" ++ toString maxReplicas ++ ", got " ++ toString w.spec.replicas)
  else
    (if w.spec.nodeName = "" then none
      else (validateName w.spec.nodeName).map ("nodeName: " ++ ·)).or <|
    (validateLabels "template.labels" w.spec.template.labels).or <|
    validateContainers w.spec.template.containers

def validateService (s : Service) : Option String :=
  (validateLabels "spec.selector" s.spec.selector).or <|
  (validatePort "port" s.spec.port).or <|
  validatePort "targetPort" s.spec.targetPort

def validateNode (n : Node) : Option String :=
  if n.spec.maxInstances < 0 then
    some ("maxInstances must be >= 0, got " ++ toString n.spec.maxInstances)
  else none

def validateRule (i : Nat) (r : PolicyRule) : Option String :=
  if r.source = "" then
    some ("rule " ++ toString (i + 1) ++ ": from is required (\"*\" matches everything)")
  else if r.target = "" then
    some ("rule " ++ toString (i + 1) ++ ": to is required (\"*\" matches everything)")
  else if r.except ≠ [] ∧ r.target ≠ "*" then
    some ("rule " ++ toString (i + 1) ++ ": except only applies when to is \"*\"")
  else none

def validatePolicy (p : NetworkPolicy) : Option String :=
  if p.spec.action = .unspecified then some "action must be ALLOW or DENY"
  else p.spec.rules.zipIdx.findSome? fun e => validateRule e.2 e.1

def validateSpec : (k : Kind) → k.Obj → Option String
  | .workload, o => validateWorkload o
  | .service, o => validateService o
  | .node, o => validateNode o
  | .networkPolicy, o => validatePolicy o
  | .inst, _ => none
  | .vipAllocation, _ => none
  | .ingressAllocation, _ => none

def validate (k : Kind) (o : k.Obj) : Option String :=
  match validateName (metaOf o).name with
  | some e => some (k.name ++ ": " ++ e)
  | none =>
    ((validateLabels "metadata.labels" (metaOf o).labels).or (validateSpec k o)).map
      (k.name ++ " " ++ quote (metaOf o).name ++ ": " ++ ·)

theorem validatePolicy_rule (p : NetworkPolicy) (h : validatePolicy p = none) (r : PolicyRule)
    (hr : r ∈ p.spec.rules) : r.except ≠ [] → r.target = "*" := by
  intro he
  unfold validatePolicy at h
  split at h
  · cases h
  · rw [List.findSome?_eq_none_iff] at h
    obtain ⟨i, hi⟩ := List.mem_iff_getElem?.mp hr
    have hv := h (r, i) (List.mem_zipIdx_iff_getElem?.mpr hi)
    unfold validateRule at hv
    by_contra hne
    simp only [he, hne, ne_eq, not_false_eq_true, and_self, if_true] at hv
    split at hv
    · cases hv
    · split at hv <;> cases hv

theorem validateName_none {n : String} : validateName n = none ↔ n ≠ "" ∧ n.utf8ByteSize ≤ maxNameLen ∧ dnsLabel n := by
  unfold validateName
  by_cases hn : n = ""
  · simp [hn]
  · by_cases hlen : n.utf8ByteSize > maxNameLen
    · simp only [hn, hlen, if_true, if_false, reduceCtorEq, false_iff]
      omega
    · by_cases hl : dnsLabel n
      · simp [hn, hlen, hl, Nat.le_of_not_lt hlen]
      · simp [hn, hlen, hl]

theorem validatePort_none {field : String} {p : Int} : validatePort field p = none ↔ 1 ≤ p ∧ p ≤ maxPort := by
  unfold validatePort
  split
  · simp only [reduceCtorEq, false_iff]
    omega
  · simp only [true_iff]
    omega

/- What a service that passes has. -/
structure ServiceValid (svc : Service) : Prop where
  named : svc.metadata.name ≠ ""
  short : svc.metadata.name.utf8ByteSize ≤ maxNameLen
  label : dnsLabel svc.metadata.name
  port : 1 ≤ svc.spec.port ∧ svc.spec.port ≤ maxPort
  targetPort : 1 ≤ svc.spec.targetPort ∧ svc.spec.targetPort ≤ maxPort

theorem validate_service {svc : Service} (h : validate .service svc = none) : ServiceValid svc := by
  unfold validate at h
  cases hn : validateName (metaOf (k := .service) svc).name with
  | some e =>
    rw [hn] at h
    cases h
  | none =>
    rw [hn] at h
    have hspec := (Option.or_eq_none_iff.mp (Option.map_eq_none_iff.mp h)).2
    obtain ⟨hne, hshort, hlabel⟩ := validateName_none.mp hn
    obtain ⟨-, hports⟩ := Option.or_eq_none_iff.mp (show validateService svc = none from hspec)
    obtain ⟨hport, htarget⟩ := Option.or_eq_none_iff.mp hports
    exact ⟨hne, hshort, hlabel, validatePort_none.mp hport, validatePort_none.mp htarget⟩

theorem label_chars {n : String} (h : dnsLabel n) {c : Char} (hc : c ∈ n.toList) : labelEdge c ∨ c = '-' := by
  unfold dnsLabel at h
  simp only [Bool.and_eq_true, List.all_eq_true, Bool.or_eq_true, decide_eq_true_eq] at h
  exact h.1.1 c hc

end Klite
