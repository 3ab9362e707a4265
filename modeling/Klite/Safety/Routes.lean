import Klite.Xds.BuilderSpec

/-!
# Routes between nodes (internal/controller/endpoints.go, internal/xds/builder.go)

A node dials its own instances directly and every other instance through the mTLS ingress
listener of the node it runs on.
-/

namespace Klite
open Lib

section Spec

/- A service reaches the instances it selects that are READY or DRAINING and have an address. -/
def serves (svc : Service) (inst : Instance) : Bool :=
  selects svc inst && (inst.phase = .ready || inst.phase = .draining) && inst.ip ≠ ""

def dialHealth (inst : Instance) : HealthStatus := if inst.phase = .draining then .draining else .healthy

/- How node `n` dials the instance for the service, if it does. -/
def route (nodes : List Node) (ingress : List IngressAllocation) (n : String) (svc : Service) (inst : Instance) :
    Option LbEndpoint :=
  if !serves svc inst then none
  else if inst.spec.node = n then some ⟨dialHealth inst, ⟨inst.ip, svc.spec.targetPort⟩, false⟩
  else
    match ingress.find? fun a => a.metadata.name = ingressAllocationName svc.metadata.name inst.metadata.name,
      nodes.find? fun m => m.metadata.name = inst.spec.node && m.getStatus.advertiseAddress ≠ "" with
    | some a, some m => some ⟨dialHealth inst, ⟨m.getStatus.advertiseAddress, a.port⟩, true⟩
    | _, _ => none

/- What an undisturbed ingress pass leaves. -/
structure AllocationsOk (l : Listings) : Prop where
  named : ∀ a ∈ l.ingress, ∃ svc ∈ l.services, ∃ inst ∈ l.instances, selects svc inst ∧
    a.metadata.name = ingressAllocationName svc.metadata.name inst.metadata.name
  carries : ∀ a ∈ l.ingress, ∀ svc ∈ l.services, ∀ inst ∈ l.instances,
    a.metadata.name = ingressAllocationName svc.metadata.name inst.metadata.name →
    a.service = svc.metadata.name ∧ a.inst = inst.metadata.name ∧ a.node = inst.spec.node
  positive : ∀ a ∈ l.ingress, 0 < a.port
  distinct : ∀ a ∈ l.ingress, ∀ a' ∈ l.ingress, a.port = a'.port → a = a'

def Listener.isIngress (l : Listener) : Bool := "ingress/".toList.isPrefixOf l.name.toList

/- The ingress listeners of a snapshot on one port. -/
def ingressOn (snap : XdsSnapshot) (p : Int) : List Listener :=
  (snap.listeners.toList.map (·.2)).filter fun l => l.isIngress && l.address.port = p

end Spec

variable {svc : Service} {inst : Instance} {n : String}

section Consumer
variable {l : Listings}

theorem serves_iff : serves svc inst ↔
    selects svc inst ∧ (inst.phase = .ready ∨ inst.phase = .draining) ∧ inst.ip ≠ "" := by
  simp [serves, and_assoc]

theorem endpointOf_serves (inp : Inputs) (h : serves svc inst) :
    ∃ ep, endpointOf inp svc inst = some ep ∧ healthStatus ep.health = dialHealth inst ∧ ep.ip = inst.ip ∧
      ep.port = svc.spec.targetPort ∧ ep.node = inst.spec.node ∧
      ep.ingressPort = (inp.ingress[ingressAllocationName svc.metadata.name inst.metadata.name]?.map
        IngressAllocation.port).getD 0 ∧ ep.machineAddress = inp.advertise.getD inst.spec.node "" := by
  obtain ⟨hs, hphase, hip⟩ := serves_iff.mp h
  unfold endpointOf dialHealth
  rcases hphase with hp | hp
  · simp [hs, hp, hip, endpointHealth, healthStatus]
  · simp [hs, hp, hip, endpointHealth, healthStatus]

theorem endpointOf_idle {inp : Inputs} (h : serves svc inst = false) : endpointOf inp svc inst = none := by
  rw [Option.eq_none_iff_forall_not_mem]
  intro ep he
  obtain ⟨hs, health, hh, hip, -⟩ := endpointOf_some.mp he
  have hserves : serves svc inst := by
    apply serves_iff.mpr
    refine ⟨hs, ?_, hip⟩
    cases hp : inst.phase <;> simp [hp, endpointHealth] at hh ⊢
  rw [h] at hserves
  cases hserves

theorem lbEndpoint_route (hd : l.Distinct) (halloc : AllocationsOk l) (hbound : inst.ip ≠ "" → inst.spec.node ≠ "") :
    (endpointOf l.inputs svc inst).bind (lbEndpoint n) = route l.nodes l.ingress n svc inst := by
  unfold route
  cases hs : serves svc inst with
  | false =>
    rw [endpointOf_idle hs]
    rfl
  | true =>
    obtain ⟨ep, he, hhealth, hip, hport, hnode, hing, haddr⟩ :=
      endpointOf_serves l.inputs hs
    rw [ingress_find hd] at hing
    rw [Std.ExtTreeMap.getD_eq_getD_getElem?, advertise_find hd] at haddr
    have hne := hbound (serves_iff.mp hs).2.2
    rw [he, Option.bind_some]
    unfold lbEndpoint
    rw [hhealth, hip, hport, hnode]
    by_cases hlocal : inst.spec.node = n
    · simp [hlocal]
    · have hremote : ¬ (inst.spec.node = "" ∨ inst.spec.node = n) := by
        rintro (h | h)
        · exact hne h
        · exact hlocal h
      rw [if_neg hremote]
      simp only [Bool.not_true, Bool.false_eq_true, if_false, if_neg hlocal]
      cases ha : l.ingress.find? fun a => a.metadata.name = ingressAllocationName svc.metadata.name inst.metadata.name with
      | none =>
        rw [ha] at hing
        rw [if_neg (by simp [hing])]
      | some a =>
        have hpos := halloc.positive a (List.mem_of_find?_eq_some ha)
        rw [ha] at hing
        cases hm : l.nodes.find? fun m => m.metadata.name = inst.spec.node && m.getStatus.advertiseAddress ≠ "" with
        | none =>
          rw [hm] at haddr
          rw [if_neg (by simp [haddr])]
        | some m =>
          have hp := List.find?_some hm
          simp only [Bool.and_eq_true, decide_eq_true_eq] at hp
          rw [hm] at haddr
          simp only [Option.map_some, Option.getD_some] at hing haddr
          rw [if_pos (by rw [hing, haddr]; exact ⟨hpos, hp.2⟩), hing, haddr]

theorem lists_service (hs : svc ∈ l.services) (hv : ∃ v ∈ l.vips, v.metadata.name = allocationName svc.metadata.name n) :
    ∃ vip, (svc, vip) ∈ listedServices l.inputs n := by
  obtain ⟨v, hv, hn⟩ := hv
  obtain ⟨vip, hvip⟩ := vips_isSome hv
  rw [hn] at hvip
  exact ⟨vip, mem_listed.mpr ⟨mem_services.mpr hs, hvip⟩⟩

theorem assignment_routes (hd : l.Distinct) (halloc : AllocationsOk l)
    (hbound : ∀ inst ∈ l.instances, inst.ip ≠ "" → inst.spec.node ≠ "") {n version : String}
    (hok : NetOk (buildNet l.inputs n)) (hs : svc ∈ l.services)
    (hv : ∃ v ∈ l.vips, v.metadata.name = allocationName svc.metadata.name n) :
    ∃ la, (newSnapshot n version (buildNet l.inputs n)).endpoints[svc.metadata.name]? = some la ∧
      la.localities.flatten = l.inputs.instances.filterMap (route l.nodes l.ingress n svc) := by
  have hnames := services_nodup hd
  obtain ⟨vip, hlisted⟩ := lists_service hs hv
  have hroutes : (groupOf l.inputs svc).endpoints.filterMap (lbEndpoint n) =
      l.inputs.instances.filterMap (route l.nodes l.ingress n svc) := by
    unfold groupOf
    rw [List.filterMap_filterMap]
    apply List.filterMap_congr
    intro inst hi
    exact lbEndpoint_route hd halloc (hbound inst (mem_instances.mp hi))
  by_cases hempty : (groupOf l.inputs svc).endpoints = []
  · rw [hempty] at hroutes
    have hmem : (⟨svc.metadata.name, vip, svc.spec.port, svc.spec.targetPort⟩ : ServiceVIP) ∈
        (buildNet l.inputs n).services := List.mem_map.mpr ⟨(svc, vip), hlisted, rfl⟩
    refine ⟨_, assignment_empty hmem ?_, hroutes⟩
    rw [net_endpoints hnames]
    intro g hg he
    obtain ⟨e, hmem, rfl⟩ := List.mem_map.mp hg
    obtain ⟨hl, hne⟩ := List.mem_filter.mp hmem
    have hsame : e.1 = svc := List.inj_on_of_nodup_map hnames (mem_listed.mp hl).1 (mem_services.mpr hs) he
    rw [hsame] at hne
    exact (of_decide_eq_true hne) hempty
  · have hg : groupOf l.inputs svc ∈ (buildNet l.inputs n).endpoints := by
      rw [net_endpoints hnames]
      exact List.mem_map.mpr ⟨(svc, vip), List.mem_filter.mpr ⟨hlisted, by simpa using hempty⟩, rfl⟩
    refine ⟨_, assignment_group hok hg, ?_⟩
    rw [← hroutes]
    simp [buildLoadAssignment]

end Consumer

section Owner
variable {l : Listings}

theorem owner_listener (hd : l.Distinct) (halloc : AllocationsOk l) {a : IngressAllocation} (hs : svc ∈ l.services)
    (hi : inst ∈ l.instances) (ha : a ∈ l.ingress)
    (hn : a.metadata.name = ingressAllocationName svc.metadata.name inst.metadata.name) (hip : inst.ip ≠ "") :
    (⟨svc.metadata.name, a.port, inst.ip, svc.spec.targetPort⟩ : IngressListener) ∈
      (buildNet l.inputs inst.spec.node).ingressListeners := by
  obtain ⟨hsvc, hinst, hnode⟩ := halloc.carries a ha svc hs inst hi hn
  have hpod : podIpOf l.inputs a.inst = inst.ip := by
    rw [hinst]
    exact podIpOf_instance (instances_nodup hd) (mem_instances.mpr hi)
  have htarget : targetPortOf l.inputs a.service = some svc.spec.targetPort := by
    rw [hsvc]
    exact targetPortOf_service (services_nodup hd) (mem_services.mpr hs)
  apply mem_ingress.mpr
  refine ⟨a.metadata.name, a, (ingress_get hd).mpr ⟨ha, rfl⟩, ?_⟩
  apply ingressOf_some.mpr
  refine ⟨hnode, svc.spec.targetPort, htarget, ?_, ?_⟩
  · rw [hpod]
    exact hip
  · rw [hpod, hsvc]

theorem isIngress_svc (net : NetDesired) (svc : ServiceVIP) : (buildListener net svc).isIngress = false := by
  simp only [Listener.isIngress, buildListener, String.toList_append]
  rfl

theorem isIngress_ingress (ing : IngressListener) : (buildIngressListener ing).isIngress = true := by
  simp [Listener.isIngress, buildIngressListener, ingressName, String.toList_append]

theorem ingressOn_single {node version : String} {net : NetDesired} (hok : NetOk net) {ing : IngressListener}
    (hi : ing ∈ net.ingressListeners) :
    ingressOn (newSnapshot node version net) ing.port = [buildIngressListener ing] := by
  have hget : (newSnapshot node version net).listeners[ingressName ing]? = some (buildIngressListener ing) :=
    (ingress_listener hok hi).1
  have hmem : ∀ {l : Listener}, l ∈ (newSnapshot node version net).listeners.toList.map (·.2) ↔
      (newSnapshot node version net).listeners[l.name]? = some l := by
    intro l
    rw [List.mem_map]
    constructor
    · rintro ⟨⟨n, l⟩, he, rfl⟩
      have hg := Table.mem_toList.mp he
      rw [(mem_listeners hg).1] at hg
      exact hg
    · intro hg
      exact ⟨(l.name, l), Table.mem_toList.mpr hg, rfl⟩
  have hnodup : ((newSnapshot node version net).listeners.toList.map (·.2)).Nodup := by
    apply List.Nodup.map_on _ (Table.toList_nodup _)
    rintro ⟨n, l⟩ he ⟨n', l'⟩ he' rfl
    rw [(mem_listeners (Table.mem_toList.mp he)).1, (mem_listeners (Table.mem_toList.mp he')).1]
  unfold ingressOn
  apply List.perm_singleton.mp
  rw [List.perm_ext_iff_of_nodup (hnodup.filter _) (List.nodup_singleton _)]
  intro l
  rw [List.mem_filter, hmem, List.mem_singleton]
  constructor
  · rintro ⟨hg, hp⟩
    simp only [Bool.and_eq_true, decide_eq_true_eq] at hp
    rcases (mem_listeners hg).2 with ⟨svc, -, rfl⟩ | ⟨ing', hi', rfl⟩
    · rw [isIngress_svc] at hp
      exact absurd hp.1 Bool.false_ne_true
    · rw [List.inj_on_of_nodup_map hok.listenerPorts hi' hi hp.2]
  · rintro rfl
    refine ⟨hget, ?_⟩
    rw [isIngress_ingress, Bool.true_and]
    exact decide_eq_true rfl

end Owner

section Routes
variable {l : Listings}

theorem route_local {nodes : List Node} {ingress : List IngressAllocation} {ep : LbEndpoint}
    (h : route nodes ingress n svc inst = some ep) (hraw : ep.ingressMtls = false) :
    serves svc inst ∧ inst.spec.node = n ∧ ep.address = ⟨inst.ip, svc.spec.targetPort⟩ := by
  unfold route at h
  split at h
  · cases h
  · rename_i hs
    split at h
    · rename_i hn
      cases h
      exact ⟨by simpa using hs, hn, rfl⟩
    · split at h
      · cases h
        cases hraw
      · cases h

theorem route_remote {nodes : List Node} {ingress : List IngressAllocation} {ep : LbEndpoint}
    (h : route nodes ingress n svc inst = some ep) (hn : inst.spec.node ≠ n) :
    serves svc inst ∧ ep.ingressMtls = true ∧ ∃ a ∈ ingress,
      a.metadata.name = ingressAllocationName svc.metadata.name inst.metadata.name ∧ ep.address.port = a.port := by
  unfold route at h
  rw [if_neg hn] at h
  split at h
  · cases h
  · rename_i hs
    split at h
    · rename_i a m ha hm
      cases h
      have hname := List.find?_some ha
      exact ⟨by simpa using hs, rfl, a, List.mem_of_find?_eq_some ha, of_decide_eq_true hname, rfl⟩
    · cases h

/- Over any six lists: the load assignment of a service that has a VIP on the node is the list
of routes, a route without mTLS leads to an instance of the node itself, and a route to
another node meets the one ingress listener of that node on its port, which leads on to
the instance. -/
theorem routes_land (l : Listings) (hd : l.Distinct)
    (hbound : ∀ inst ∈ l.instances, inst.ip ≠ "" → inst.spec.node ≠ "") (halloc : AllocationsOk l)
    (version : String → String) (snap : String → XdsSnapshot)
    (hsnap : ∀ (m : String) built, (buildAll l.inputs)[m]? = some built →
      buildSnapshot m (version m) built.net = .ok (snap m))
    (n : String) (hn : n ∈ l.inputs.nodes) (svc : Service) (hs : svc ∈ l.services)
    (hv : ∃ v ∈ l.vips, v.metadata.name = allocationName svc.metadata.name n) :
    ∃ la, (snap n).endpoints[svc.metadata.name]? = some la ∧
      la.localities.flatten = l.inputs.instances.filterMap (route l.nodes l.ingress n svc) ∧
      (∀ ep ∈ la.localities.flatten, ep.ingressMtls = false → ∃ inst ∈ l.instances,
        serves svc inst ∧ inst.spec.node = n ∧ ep.address = ⟨inst.ip, svc.spec.targetPort⟩) ∧
      ∀ inst ∈ l.instances, ∀ ep, route l.nodes l.ingress n svc inst = some ep → inst.spec.node ≠ n →
        ep.ingressMtls = true ∧ ∃ lst stat c, ingressOn (snap inst.spec.node) ep.address.port = [lst] ∧
          lst.mtls = true ∧ lst.filters = [.tcpProxy stat c] ∧
          (snap inst.spec.node).clusters[c]? = some ⟨c, .static ⟨inst.ip, svc.spec.targetPort⟩⟩ := by
  have hbuilt : ∀ m ∈ l.inputs.nodes, NetOk (buildNet l.inputs m) ∧
      snap m = newSnapshot m (version m) (buildNet l.inputs m) := by
    intro m hm
    obtain ⟨hok, -, he⟩ := buildSnapshot_ok.mp (hsnap m _ (buildAll_get hm))
    exact ⟨hok, he⟩
  obtain ⟨hok, he⟩ := hbuilt n hn
  obtain ⟨la, hla, hroutes⟩ := assignment_routes hd halloc hbound hok hs hv
  refine ⟨la, by rw [he]; exact hla, hroutes, ?_, ?_⟩
  · intro ep hep hraw
    rw [hroutes] at hep
    obtain ⟨inst, hi, hr⟩ := List.mem_filterMap.mp hep
    exact ⟨inst, mem_instances.mp hi, route_local hr hraw⟩
  · intro inst hi ep hr hne
    obtain ⟨hserves, hmtls, a, ha, hname, hport⟩ := route_remote hr hne
    have hip := (serves_iff.mp hserves).2.2
    have hm : inst.spec.node ∈ l.inputs.nodes := mem_nodes.mpr (Or.inr ⟨inst, hi, rfl, hbound inst hi hip⟩)
    obtain ⟨hokm, hem⟩ := hbuilt inst.spec.node hm
    have hlst := owner_listener hd halloc hs hi ha hname hip
    have hon : ingressOn (snap inst.spec.node) ep.address.port =
        [buildIngressListener ⟨svc.metadata.name, a.port, inst.ip, svc.spec.targetPort⟩] := by
      rw [hem, hport]
      exact ingressOn_single hokm hlst
    refine ⟨hmtls, _, _, _, hon, rfl, rfl, ?_⟩
    rw [hem]
    exact (ingress_listener hokm hlst).2

end Routes

section Example

def routeService : Service where
  metadata := { name := "web" }
  spec := { selector := mapOf [("app", "web")], port := 80, targetPort := 8080 }

def routeInstance (name node : String) : Instance where
  metadata := { name := name, labels := mapOf [("app", "web")] }
  spec := { workload := "web", node := node }
  status := some { phase := .ready, instanceIp := "10.44.128.5" }

def routeNode (name addr : String) (index : Int) : Node where
  metadata := { name := name }
  status := some { phase := .ready, nodeIndex := index, advertiseAddress := addr }

def twoMachines : Listings where
  services := [routeService]
  instances := [routeInstance "web-1a2b" "a", routeInstance "web-3c4d" "b"]
  nodes := [routeNode "a" "192.0.2.1" 1, routeNode "b" "192.0.2.2" 2]
  vips := [{ metadata := { name := "web.a" }, service := "web", node := "a", vip := "10.44.64.1" }]
  ingress := [{ metadata := { name := "web.web-1a2b" }, service := "web", inst := "web-1a2b", node := "a", port := 20000 },
    { metadata := { name := "web.web-3c4d" }, service := "web", inst := "web-3c4d", node := "b", port := 20032 }]

theorem twoMachines_distinct : twoMachines.Distinct := by
  constructor <;> decide +kernel

theorem twoMachines_allocations : AllocationsOk twoMachines := by
  constructor <;> decide +kernel

def machineSnapshot (m : String) : XdsSnapshot := newSnapshot m "1" (buildNet twoMachines.inputs m)

theorem twoMachines_accepted (m : String) (built : NodeSnapshot) (h : (buildAll twoMachines.inputs)[m]? = some built) :
    buildSnapshot m "1" built.net = .ok (machineSnapshot m) := by
  have hnodes : twoMachines.inputs.nodes = ["a", "b"] := by decide +kernel
  have hm : m ∈ twoMachines.inputs.nodes := by
    obtain ⟨m', hm', he⟩ := List.mem_map.mp (mapOf_mem h)
    rw [← (Prod.mk.inj he).1]
    exact hm'
  rw [buildAll_net h]
  rw [hnodes] at hm
  simp only [List.mem_cons, List.not_mem_nil, or_false] at hm
  rcases hm with rfl | rfl
  · exact buildSnapshot_accepts (by decide +kernel) (by decide +kernel)
  · exact buildSnapshot_accepts (by decide +kernel) (by decide +kernel)

theorem routes_land_remote : ∃ la, (machineSnapshot "a").endpoints["web"]? = some la ∧
    la.localities.flatten = [⟨.healthy, ⟨"10.44.128.5", 8080⟩, false⟩, ⟨.healthy, ⟨"192.0.2.2", 20032⟩, true⟩] ∧
    ∃ lst stat c, ingressOn (machineSnapshot "b") 20032 = [lst] ∧ lst.mtls = true ∧ lst.filters = [.tcpProxy stat c] ∧
      (machineSnapshot "b").clusters[c]? = some ⟨c, .static ⟨"10.44.128.5", 8080⟩⟩ := by
  obtain ⟨la, hla, hroutes, -, hremote⟩ := routes_land twoMachines twoMachines_distinct (by decide +kernel)
    twoMachines_allocations (fun _ => "1") machineSnapshot twoMachines_accepted "a" (by decide +kernel) routeService
    (by decide +kernel) (by decide +kernel)
  refine ⟨la, hla, hroutes.trans (by decide +kernel), ?_⟩
  exact (hremote (routeInstance "web-3c4d" "b") (by decide +kernel) ⟨.healthy, ⟨"192.0.2.2", 20032⟩, true⟩
    (by decide +kernel) (by decide +kernel)).2

end Example

end Klite
