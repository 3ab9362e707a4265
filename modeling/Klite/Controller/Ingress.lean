import Klite.Controller.Allocator
import Klite.Server.Agent

/-!
# The ingress controller (internal/controller/ingress.go)

`base` is the resolved port base. Ports and indexes are Go's int32.
-/

namespace Klite
open Lib

structure IngressAllocationSpec where
  service : String
  inst : String
  node : String
  deriving DecidableEq

abbrev IngressState := AllocState IngressAllocationSpec Int

abbrev Indexes := Std.ExtTreeMap String Int

def indexesOf (nodes : List Node) : Indexes := mapOf (nodes.map fun n => (n.metadata.name, n.index))

section Ingress
variable (base : Int)

def nodeRange (index : Int) : Option (Int × Int) :=
  if index < 1 then none
  else
    let lo := int32 (base + int32 (ingressPortsPerNode * int32 (index - 1)))
    let hi := int32 (lo + ingressPortsPerNode)
    if lo < 1 ∨ hi > 65536 then none else some (lo, hi)

variable (index : Indexes)

def rangeOf (node : String) : Option (Int × Int) := nodeRange base (index.getD node 0)

-- The phase is ignored: an instance keeps its port from its bind on.
def ingressWanted (svcs : List Service) (insts : List Instance) : Std.ExtTreeMap String IngressAllocationSpec :=
  mapOf (svcs.flatMap fun svc => insts.filterMap fun inst =>
    if inst.spec.node = "" ∨ !selects svc inst then none
    else match rangeOf base index inst.spec.node with
      | none => none
      | some _ => some (ingressAllocationName svc.metadata.name inst.metadata.name,
          ⟨svc.metadata.name, inst.metadata.name, inst.spec.node⟩))

def inRange (port : Int) (range : Option (Int × Int)) : Bool :=
  range.any fun r => r.1 ≤ port ∧ port < r.2

def ingressReconcileAllocation (st : IngressState) (alloc : IngressAllocation) : Code IngressState :=
  let name := alloc.metadata.name
  let port := alloc.port
  let valid := inRange port (rangeOf base index alloc.node)
  let duplicate := valid && port ∈ st.used
  let used := if port > 0 then port :: st.used else st.used
  let want := st.want.erase name
  let rev := alloc.metadata.resourceVersion
  match st.want[name]? with
  | none => release .ingressAllocation name rev { st with want := want, used := used }
  | some spec =>
    -- The name outlived its instance and a namesake landed elsewhere.
    if spec.node ≠ alloc.node then
      release .ingressAllocation name rev { st with want := want.insert name spec, used := used }
    else if !valid then
      release .ingressAllocation name rev { st with want := want.insert name spec, used := used }
    else if duplicate then
      release .ingressAllocation name rev { st with want := want.insert name spec, used := used }
    else pure { st with want := want, used := used }

def portScan (used : List Int) (hi : Int) : ℕ → Int → Option Int
  | 0, _ => none
  | n + 1, p => if p < hi then if p ∈ used then portScan used hi n (p + 1) else some p else none

def firstFreePort (lo hi : Int) (used : List Int) : Except String Int :=
  match portScan used hi (hi - lo).toNat lo with
  | some p => .ok p
  | none => .error ("ingress range " ++ toString lo ++ "-" ++ toString (hi - 1) ++ " exhausted")

def ingressAllocation (spec : IngressAllocationSpec) (port : Int) : IngressAllocation where
  metadata := { name := ingressAllocationName spec.service spec.inst }
  service := spec.service
  inst := spec.inst
  node := spec.node
  port := port

def ingressAllocate (st : IngressState) (spec : IngressAllocationSpec) : Code IngressState :=
  match rangeOf base index spec.node with
  | none => pure st
  | some (lo, hi) =>
    match firstFreePort lo hi st.used with
    | .error e => pure (st.fail ("node " ++ spec.node ++ ": " ++ e))
    | .ok port => createAllocation .ingressAllocation (ingressAllocation spec port) { st with used := port :: st.used }

end Ingress

def ingressReconcile (base : Int) : Code (List String) := do
  match ← list .service with
  | .error e => pure [e.text]
  | .ok (svcs, _) =>
    match ← list .inst with
    | .error e => pure [e.text]
    | .ok (insts, _) =>
      match ← list .node with
      | .error e => pure [e.text]
      | .ok (nodes, _) =>
        match ← list .ingressAllocation with
        | .error e => pure [e.text]
        | .ok (allocs, _) =>
          repairPass (ingressReconcileAllocation base (indexesOf nodes)) (ingressAllocate base (indexesOf nodes))
            (ingressWanted base (indexesOf nodes) svcs insts) allocs

end Klite
