import Klite.Xds.BuilderSpec
import Klite.Xds.Cache

/-!
# Inputs that every node's snapshot is built from

Conditions on the listed objects under which `BuildSnapshot` accepts what `buildAll` makes of
them, for every node. The VIPs of the services are asked for by themselves.
-/

namespace Klite
open Lib

section Screened

def EmptyOrAddr (s : String) : Prop := s = "" ∨ IsAddr s

/- The objects that endpoints, ingress listeners and identities are made of. -/
structure Listings.Screened (l : Listings) : Prop where
  services : ∀ svc ∈ l.services, validate .service svc = none
  instances : ∀ i ∈ l.instances, EmptyOrAddr i.ip
  nodes : ∀ n ∈ l.nodes, EmptyOrAddr n.getStatus.advertiseAddress
  ports : ∀ a ∈ l.ingress, IsPort a.port
  distinct : ∀ a ∈ l.ingress, ∀ a' ∈ l.ingress, a.node = a'.node → a.port = a'.port → a = a'

variable {l : Listings} {node version : String}

theorem screened_service (hs : l.Screened) {svc : Service} (h : svc ∈ l.inputs.services) : ServiceValid svc :=
  validate_service (hs.services svc (mem_services.mp h))

theorem screened_address (hs : l.Screened) {inst : Instance} (h : inst ∈ l.inputs.instances) (hip : inst.ip ≠ "") :
    IsAddr inst.ip :=
  (hs.instances inst (mem_instances.mp h)).resolve_left hip

section Ports
variable (hd : l.Distinct) (hs : l.Screened)
include hd hs

theorem ingressPort_range (name : String) : 0 ≤ (l.inputs.ingress[name]?.map IngressAllocation.port).getD 0 ∧
      (l.inputs.ingress[name]?.map IngressAllocation.port).getD 0 ≤ 65535 := by
  cases hg : l.inputs.ingress[name]? with
  | none => simp
  | some a =>
    have hport := hs.ports a ((ingress_get hd).mp hg).1
    unfold IsPort at hport
    simp only [Option.map_some, Option.getD_some]
    omega

theorem advertise_screened (m : String) : EmptyOrAddr (l.inputs.advertise.getD m "") := by
  rw [Std.ExtTreeMap.getD_eq_getD_getElem?]
  cases hg : l.inputs.advertise[m]? with
  | none => exact Or.inl rfl
  | some addr =>
    obtain ⟨n, hn, -, rfl, -⟩ := (advertise_get hd).mp hg
    exact hs.nodes n hn

theorem screened_endpoint {svc : Service} (hsvc : svc ∈ l.inputs.services) {ep : Endpoint}
    (he : ep ∈ (groupOf l.inputs svc).endpoints) : EndpointOk ep := by
  obtain ⟨inst, hi, hep⟩ := mem_endpoints.mp he
  obtain ⟨-, health, -, hip, rfl⟩ := endpointOf_some.mp hep
  exact ⟨screened_address hs hi hip, (screened_service hs hsvc).targetPort, advertise_screened hd hs _,
    ingressPort_range hd hs _⟩

theorem screened_listener {ing : IngressListener} (hi : ing ∈ buildIngressListeners l.inputs node) :
    ListenerOk ing := by
  obtain ⟨n, a, hg, ho⟩ := mem_ingress.mp hi
  obtain ⟨-, p, hp, hip, rfl⟩ := ingressOf_some.mp ho
  obtain ⟨svc, hsvc, hname, rfl⟩ := targetPortOf_some hp
  obtain ⟨inst, hinst, -, he⟩ := podIpOf_some hip
  have hvalid := screened_service hs hsvc
  refine ⟨?_, hs.ports a ((ingress_get hd).mp hg).1, hvalid.targetPort, ?_⟩
  · show a.service ≠ ""
    rw [← hname]
    exact hvalid.named
  · show IsAddr (podIpOf l.inputs a.inst)
    rw [he] at hip ⊢
    exact screened_address hs hinst hip

theorem screened_ports : ((buildIngressListeners l.inputs node).map (·.port)).Nodup := by
  rw [ingressListeners_eq]
  unfold List.Nodup
  rw [List.pairwise_map, List.pairwise_filterMap]
  apply (Table.toList_nodup l.inputs.ingress).imp_of_mem
  intro e e' he he' hne ing hing ing' hing' hport
  obtain ⟨ha, hn⟩ := (ingress_get hd).mp (Table.mem_toList.mp he)
  obtain ⟨ha', hn'⟩ := (ingress_get hd).mp (Table.mem_toList.mp he')
  obtain ⟨hnode, _, -, -, rfl⟩ := ingressOf_some.mp hing
  obtain ⟨hnode', _, -, -, rfl⟩ := ingressOf_some.mp hing'
  have hsame := hs.distinct e.2 ha e'.2 ha' (hnode.trans hnode'.symm) hport
  exact hne (Prod.ext (by rw [← hn, ← hn', hsame]) hsame)

end Ports

theorem screened_identity (hs : l.Screened) {ip s : String} (h : (buildIPIdentity l.inputs)[ip]? = some s) :
    IsAddr ip := by
  obtain ⟨inst, hi, rfl, hip, -⟩ := mem_identity h
  exact screened_address hs hi hip

theorem serviceNames_eq : (buildNet l.inputs node).services.map (·.service) =
    (listedServices l.inputs node).map fun e => e.1.metadata.name := by
  show ((listedServices l.inputs node).map _).map _ = _
  rw [List.map_map]
  rfl

theorem serviceNames_nodup (hd : l.Distinct) : ((buildNet l.inputs node).services.map (·.service)).Nodup := by
  rw [serviceNames_eq]
  exact (services_nodup hd).sublist listed_sublist

theorem groups_sublist (hd : l.Distinct) :
    ((buildNet l.inputs node).endpoints.map (·.service)).Sublist ((buildNet l.inputs node).services.map (·.service)) := by
  rw [serviceNames_eq, net_endpoints (services_nodup hd), List.map_map]
  exact List.filter_sublist.map _

theorem mem_net_services {svc : ServiceVIP} : svc ∈ (buildNet l.inputs node).services ↔
    ∃ s ∈ l.services, ∃ vip, l.inputs.vips[allocationName s.metadata.name node]? = some vip ∧
      svc = ⟨s.metadata.name, vip, s.spec.port, s.spec.targetPort⟩ := by
  show svc ∈ (listedServices l.inputs node).map _ ↔ _
  rw [List.mem_map]
  constructor
  · rintro ⟨e, he, rfl⟩
    obtain ⟨hs, hv⟩ := mem_listed.mp he
    exact ⟨e.1, mem_services.mp hs, e.2, hv, rfl⟩
  · rintro ⟨s, hs, vip, hv, rfl⟩
    exact ⟨(s, vip), mem_listed.mpr ⟨mem_services.mpr hs, hv⟩, rfl⟩

theorem screened_ok (hd : l.Distinct) (hs : l.Screened)
    (hvips : ∀ svc ∈ (buildNet l.inputs node).services, IsAddr svc.vip) : NetOk (buildNet l.inputs node) where
  services := by
    intro svc hm
    have hvip := hvips svc hm
    obtain ⟨s, hin, vip, -, rfl⟩ := mem_net_services.mp hm
    have hvalid := validate_service (hs.services s hin)
    exact ⟨hvalid.named, hvip, hvalid.port⟩
  serviceNames := serviceNames_nodup hd
  endpoints := by
    intro g hg ep hep
    rw [net_endpoints (services_nodup hd)] at hg
    obtain ⟨e, he, rfl⟩ := List.mem_map.mp hg
    exact screened_endpoint hd hs (mem_listed.mp (List.mem_filter.mp he).1).1 hep
  groupNames := (serviceNames_nodup hd).sublist (groups_sublist hd)
  listeners := fun ing hi => screened_listener hd hs hi
  listenerPorts := screened_ports hd hs
  identity := fun ip s h => screened_identity hs h

end Screened

section Names
variable {net : NetDesired} {node version : String}

def allListeners (net : NetDesired) : List Listener :=
  net.services.map (buildListener net) ++ net.ingressListeners.map buildIngressListener

def allClusters (net : NetDesired) : List Cluster :=
  buildClusters net ++ net.ingressListeners.map buildIngressCluster

-- No service has the name of an ingress cluster.
def PlainNames (net : NetDesired) : Prop := ∀ svc ∈ net.services, '/' ∉ svc.service.toList

theorem ingressName_slash (ing : IngressListener) : '/' ∈ (ingressName ing).toList := by
  simp [ingressName, String.toList_append]

theorem ingressNames_nodup (h : (net.ingressListeners.map (·.port)).Nodup) :
    (net.ingressListeners.map ingressName).Nodup := by
  apply List.pairwise_map.mpr
  apply (List.pairwise_map.mp h).imp
  intro a b hne hname
  exact hne (ingressName_inj hname).2

theorem listeners_nodup (hok : NetOk net) : ((allListeners net).map (·.name)).Nodup := by
  unfold allListeners
  rw [List.map_append, List.map_map, List.map_map, List.nodup_append]
  refine ⟨?_, ingressNames_nodup hok.listenerPorts, ?_⟩
  · apply List.pairwise_map.mpr
    apply (List.pairwise_map.mp hok.serviceNames).imp
    intro a b hne hname
    exact hne ((String.append_right_inj _).mp hname)
  · intro n hn n' hn' he
    obtain ⟨svc, -, rfl⟩ := List.mem_map.mp hn
    obtain ⟨ing, -, rfl⟩ := List.mem_map.mp hn'
    exact svc_ne_ingress he

theorem clusters_nodup (hok : NetOk net) (hplain : PlainNames net) : ((allClusters net).map (·.name)).Nodup := by
  unfold allClusters buildClusters
  rw [List.map_append, List.map_map, List.map_map, List.nodup_append]
  refine ⟨hok.serviceNames, ingressNames_nodup hok.listenerPorts, ?_⟩
  intro n hn n' hn' he
  obtain ⟨svc, hsvc, rfl⟩ := List.mem_map.mp hn
  obtain ⟨ing, -, rfl⟩ := List.mem_map.mp hn'
  apply hplain svc hsvc
  have hname : svc.service = ingressName ing := he
  rw [hname]
  exact ingressName_slash ing

theorem assignments_nodup (hok : NetOk net) : ((buildEndpoints node net).map (·.clusterName)).Nodup := by
  unfold buildEndpoints
  rw [List.map_append, List.map_map, List.map_map, List.nodup_append]
  refine ⟨hok.groupNames, ?_, ?_⟩
  · exact hok.serviceNames.sublist (List.filter_sublist.map _)
  · intro n hn n' hn' he
    obtain ⟨g, hg, rfl⟩ := List.mem_map.mp hn
    obtain ⟨svc, hsvc, rfl⟩ := List.mem_map.mp hn'
    obtain ⟨-, hno⟩ := List.mem_filter.mp hsvc
    simp only [Bool.not_eq_true', List.any_eq_false, decide_eq_true_eq] at hno
    exact hno g hg he

theorem mem_assignments (node : String) (hsub : ∀ g ∈ net.endpoints, ∃ svc ∈ net.services, svc.service = g.service) {n : String} :
    n ∈ (buildEndpoints node net).map (·.clusterName) ↔ ∃ svc ∈ net.services, svc.service = n := by
  rw [List.mem_map]
  constructor
  · rintro ⟨a, ha, rfl⟩
    obtain ⟨g, hg, rfl⟩ | ⟨svc, hs, -, rfl⟩ := buildEndpoints_names ha
    · exact hsub g hg
    · exact ⟨svc, hs, rfl⟩
  · rintro ⟨svc, hs, rfl⟩
    unfold buildEndpoints
    by_cases hg : ∃ g ∈ net.endpoints, g.service = svc.service
    · obtain ⟨g, hg, hn⟩ := hg
      exact ⟨buildLoadAssignment node g, List.mem_append_left _ (List.mem_map_of_mem hg), hn⟩
    · refine ⟨{ clusterName := svc.service }, List.mem_append_right _ ?_, rfl⟩
      apply List.mem_map.mpr
      refine ⟨svc, List.mem_filter.mpr ⟨hs, ?_⟩, rfl⟩
      simp only [Bool.not_eq_true', List.any_eq_false, decide_eq_true_eq]
      exact fun g hm hn => hg ⟨g, hm, hn⟩

theorem consistent_of_ok (hok : NetOk net) (hplain : PlainNames net)
    (hsub : ∀ g ∈ net.endpoints, ∃ svc ∈ net.services, svc.service = g.service) :
    (newSnapshot node version net).consistent := by
  apply decide_eq_true
  have hl : (((newSnapshot node version net).clusters.toList.filter fun e => e.2.kind = .eds).map (·.1)).Pairwise
      (· < ·) := (Table.keys_sorted _).sublist (List.filter_sublist.map _)
  apply List.Pairwise.eq_of_mem_iff hl (Table.keys_sorted _)
  intro n
  have hright : n ∈ (newSnapshot node version net).endpoints.toList.map (·.1) ↔
      ∃ svc ∈ net.services, svc.service = n := by
    rw [← mem_assignments node hsub]
    have hperm : (newSnapshot node version net).endpoints.toList.Perm
        ((buildEndpoints node net).map fun a => (a.clusterName, a)) := by
      apply Table.fill_perm
      rw [List.map_map]
      exact assignments_nodup hok
    rw [(hperm.map _).mem_iff, List.map_map]
    rfl
  have hclusters : (newSnapshot node version net).clusters.toList.Perm ((allClusters net).map fun c => (c.name, c)) := by
    apply Table.fill_perm
    rw [List.map_map]
    exact clusters_nodup hok hplain
  rw [hright, List.mem_map]
  constructor
  · rintro ⟨e, he, rfl⟩
    obtain ⟨hin, hkind⟩ := List.mem_filter.mp he
    obtain ⟨c, hc, rfl⟩ := List.mem_map.mp (hclusters.mem_iff.mp hin)
    rcases List.mem_append.mp hc with hc | hc
    · obtain ⟨svc, hs, rfl⟩ := List.mem_map.mp hc
      exact ⟨svc, hs, rfl⟩
    · obtain ⟨ing, -, rfl⟩ := List.mem_map.mp hc
      cases of_decide_eq_true hkind
  · rintro ⟨svc, hs, rfl⟩
    refine ⟨(svc.service, ⟨svc.service, .eds⟩), List.mem_filter.mpr ⟨?_, rfl⟩, rfl⟩
    apply hclusters.mem_iff.mpr
    exact List.mem_map.mpr ⟨_, List.mem_append_left _ (List.mem_map.mpr ⟨svc, hs, rfl⟩), rfl⟩

end Names

section Accepted
variable {l : Listings} {node : String} (version : String)

theorem screened_plain (hs : l.Screened) : PlainNames (buildNet l.inputs node) := by
  intro svc hm hslash
  obtain ⟨s, hin, vip, -, rfl⟩ := mem_net_services.mp hm
  have hc := label_chars (validate_service (hs.services s hin)).label hslash
  revert hc
  decide

theorem screened_accepted (hd : l.Distinct) (hs : l.Screened)
    (hvips : ∀ svc ∈ (buildNet l.inputs node).services, IsAddr svc.vip) :
    buildSnapshot node version (buildNet l.inputs node) = .ok (newSnapshot node version (buildNet l.inputs node)) := by
  have hok := screened_ok hd hs hvips
  apply buildSnapshot_ok.mpr
  refine ⟨hok, consistent_of_ok hok (screened_plain hs) ?_, rfl⟩
  intro g hg
  obtain ⟨svc, hsvc, hn⟩ := List.mem_map.mp ((groups_sublist hd).subset (List.mem_map_of_mem hg))
  exact ⟨svc, hsvc, hn⟩

end Accepted

section Store

def listingsAt (s : Store) : Listings where
  services := s.listing .service
  instances := s.listing .inst
  nodes := s.listing .node
  policies := s.listing .networkPolicy
  vips := s.listing .vipAllocation
  ingress := s.listing .ingressAllocation

theorem listingsAt_inputs (s : Store) : (listingsAt s).inputs = inputsAt s := rfl

theorem listingsAt_distinct (s : Store) : (listingsAt s).Distinct where
  services := listing_names s .service
  instances := listing_names s .inst
  nodes := listing_names s .node
  vips := listing_names s .vipAllocation
  ingress := listing_names s .ingressAllocation

end Store

end Klite
