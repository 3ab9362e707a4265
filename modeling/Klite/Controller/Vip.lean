import Klite.Controller.Allocator
import Klite.Net.Netip

/-!
# The VIP controller (internal/controller/vip.go)
-/

namespace Klite
open Lib

-- 10.44.64.0/18
def vipPool : Netip.Prefix := ⟨⟨false, 170672128, ""⟩, 18⟩

structure VIPAllocationSpec where
  service : String
  node : String
  deriving DecidableEq

abbrev VipState := AllocState VIPAllocationSpec Netip.Addr

def vipWanted (svcs : List Service) (nodes : List Node) : Std.ExtTreeMap String VIPAllocationSpec :=
  mapOf (svcs.flatMap fun svc => nodes.map fun node =>
    (allocationName svc.metadata.name node.metadata.name, ⟨svc.metadata.name, node.metadata.name⟩))

-- Every address seen is reserved, even one whose allocation goes.
def vipReconcileAllocation (st : VipState) (alloc : VIPAllocation) : Code VipState :=
  let name := alloc.metadata.name
  let ip := Netip.parseAddr alloc.vip
  let valid := ip.any vipPool.contains
  let duplicate := valid && ip.any (· ∈ st.used)
  let used := ip.toList ++ st.used
  let want := st.want.erase name
  let rev := alloc.metadata.resourceVersion
  match st.want[name]? with
  | none => release .vipAllocation name rev { st with want := want, used := used }
  | some spec =>
    if !valid then release .vipAllocation name rev { st with want := want.insert name spec, used := used }
    else if duplicate then release .vipAllocation name rev { st with want := want.insert name spec, used := used }
    else pure { st with want := want, used := used }

def skipVIP (used : List Netip.Addr) (ip : Netip.Addr) : Bool :=
  ip.bits % 256 = 0 ∨ ip.bits % 256 = 255 ∨ ip ∈ used

-- The pool has 2^14 addresses, so the bounded scan is the unbounded one.
def vipScan (used : List Netip.Addr) : ℕ → Netip.Addr → Option Netip.Addr
  | 0, _ => none
  | n + 1, ip =>
    if !vipPool.contains ip then none
    else if skipVIP used ip then vipScan used n ip.next
    else some ip

def firstFreeVIP (used : List Netip.Addr) : Except String Netip.Addr :=
  match vipScan used 16384 vipPool.addr.next with
  | some ip => .ok ip
  | none => .error "vip pool 10.44.64.0/18 exhausted"

def vipAllocation (spec : VIPAllocationSpec) (ip : Netip.Addr) : VIPAllocation where
  metadata := { name := allocationName spec.service spec.node }
  service := spec.service
  node := spec.node
  vip := ip.string

-- The pick is reserved before the write settles.
def vipAllocate (st : VipState) (spec : VIPAllocationSpec) : Code VipState :=
  match firstFreeVIP st.used with
  | .error e => pure (st.fail e)
  | .ok ip => createAllocation .vipAllocation (vipAllocation spec ip) { st with used := ip :: st.used }

def vipReconcile : Code (List String) := do
  match ← list .service with
  | .error e => pure [e.text]
  | .ok (svcs, _) =>
    match ← list .node with
    | .error e => pure [e.text]
    | .ok (nodes, _) =>
      match ← list .vipAllocation with
      | .error e => pure [e.text]
      | .ok (allocs, _) => repairPass vipReconcileAllocation vipAllocate (vipWanted svcs nodes) allocs

end Klite
