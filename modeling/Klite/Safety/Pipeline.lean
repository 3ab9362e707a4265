import Klite.Controller.IngressSpec
import Klite.Controller.VipSpec
import Klite.Net.Config
import Klite.Xds.Accept

/-!
# From the API to Envoy and klite-net

A store whose services passed `Validate`, whose allocations an undisturbed pass of each
allocator left and whose addresses are literal gives every node a desired state that both of
its consumers accept: `BuildSnapshot` in klited and `parseConfig` in klite-net.
-/

namespace Klite
open Lib

section Spec

/- The allocations are those that a pass left; the rest of the store may have moved on. -/
def VipsLeft (s : Store) : Prop :=
  ∃ s₀, Settled vipScheme (vipWants s₀) s₀ ∧ s.tbl .vipAllocation = s₀.tbl .vipAllocation

def IngressLeft (base : Int) (s : Store) : Prop :=
  ∃ s₀, Settled (ingressScheme base (indexesOf (s₀.listing .node))) (ingressWants base s₀) s₀ ∧
    s.tbl .ingressAllocation = s₀.tbl .ingressAllocation

structure Admitted (base : Int) (s : Store) : Prop where
  services : ∀ svc, Holds s .service svc → validate .service svc = none
  instances : ∀ i : Instance, Holds s .inst i → EmptyOrAddr i.ip
  nodes : ∀ n : Node, Holds s .node n → EmptyOrAddr n.getStatus.advertiseAddress
  vips : VipsLeft s
  ingress : IngressLeft base s

end Spec

section Passes

theorem passes_admitted (base : Int) {w : World} (hsvc : ∀ svc, Holds w.store .service svc → validate .service svc = none)
    (hinst : ∀ i : Instance, Holds w.store .inst i → EmptyOrAddr i.ip)
    (hnode : ∀ n : Node, Holds w.store .node n → EmptyOrAddr n.getStatus.advertiseAddress) :
    Alone (fun _ w₁ => ∀ w₁', w₁'.store = w₁.store →
      Alone (fun _ w₂ => Admitted base w₂.store) (ingressReconcile base) w₁') vipReconcile w := by
  apply solo_mono _ (solo_vipReconcile w)
  intro _ w₁ ho₁ w₁' hw₁
  apply solo_mono _ (solo_ingressReconcile base w₁')
  intro _ w₂ ho₂
  rw [hw₁] at ho₂
  have hsame : ∀ k, k ≠ .vipAllocation → k ≠ .ingressAllocation → w₂.store.tbl k = w.store.tbl k := by
    intro k hv hi
    rw [ho₂.others k hi, ho₁.others k hv]
  refine ⟨?_, ?_, ?_, ?_, ?_⟩
  · intro svc hs
    exact hsvc svc (holds_of_tbl (hsame _ (by decide) (by decide)) hs)
  · intro i hi
    exact hinst i (holds_of_tbl (hsame _ (by decide) (by decide)) hi)
  · intro n hn
    exact hnode n (holds_of_tbl (hsame _ (by decide) (by decide)) hn)
  · refine ⟨w₁.store, ?_, ho₂.others _ (by decide)⟩
    rw [vipWants_of_tbl ho₁.others]
    exact outcome_settled ho₁
  · obtain ⟨hwants, hnodes⟩ := wants_of_tbl base ho₂.others
    refine ⟨w₂.store, ?_, rfl⟩
    rw [hwants, hnodes]
    exact outcome_settled ho₂

end Passes

section Allocations
variable {base : Int} {s : Store}

theorem vips_in_pool (h : VipsLeft s) {a : VIPAllocation} (ha : a ∈ s.listing .vipAllocation) :
    ∃ ip, Netip.parseAddr a.vip = some ip ∧ vipPool.contains ip := by
  obtain ⟨s₀, hs, htbl⟩ := h
  rw [listing_of_tbl htbl] at ha
  obtain ⟨_, _, hok⟩ := hs.fits a (mem_listing.mp ha)
  exact (Option.any_eq_true _ _).mp hok

theorem ingress_fits (h : IngressLeft base s) {a : IngressAllocation} (ha : a ∈ s.listing .ingressAllocation) :
    IsPort a.port ∧ ∀ a' ∈ s.listing .ingressAllocation, a.port = a'.port → a = a' := by
  obtain ⟨s₀, hs, htbl⟩ := h
  rw [listing_of_tbl htbl] at ha ⊢
  have hport : ∀ a ∈ s₀.listing .ingressAllocation, IsPort a.port := by
    intro a ha
    obtain ⟨sp, -, hok⟩ := hs.fits a (mem_listing.mp ha)
    obtain ⟨-, hrange⟩ := of_decide_eq_true hok
    exact inRange_bounds _ hrange
  refine ⟨hport a ha, fun a' ha' he => ?_⟩
  have haddr : ∀ b ∈ s₀.listing .ingressAllocation,
      (ingressScheme base (indexesOf (s₀.listing .node))).addr b = some b.port := by
    intro b hb
    have hpos : b.port > 0 := (hport b hb).1
    exact if_pos hpos
  apply hs.distinct a a' (mem_listing.mp ha) (mem_listing.mp ha') a.port (haddr a ha)
  rw [haddr a' ha', he]

theorem admitted_screened (h : Admitted base s) : (listingsAt s).Screened where
  services := fun svc hm => h.services svc (mem_listing.mp hm)
  instances := fun i hm => h.instances i (mem_listing.mp hm)
  nodes := fun n hm => h.nodes n (mem_listing.mp hm)
  ports := fun _ hm => (ingress_fits h.ingress hm).1
  distinct := fun _ hm a' hm' _ he => (ingress_fits h.ingress hm).2 a' hm' he

theorem listed_vip (h : VipsLeft s) {node : String} {svc : ServiceVIP}
    (hm : svc ∈ (buildNet (inputsAt s) node).services) :
    ∃ ip, Netip.parseAddr svc.vip = some ip ∧ vipPool.contains ip := by
  rw [← listingsAt_inputs] at hm
  obtain ⟨_, _, vip, hv, rfl⟩ := mem_net_services.mp hm
  obtain ⟨a, ha, -, rfl⟩ := (vips_get (listingsAt_distinct s)).mp hv
  exact vips_in_pool h ha

end Allocations

section Daemon
variable {base : Int} {s : Store}

def addrOf (svc : ServiceVIP) : Netip.Addr := (Netip.parseAddr svc.vip).getD ⟨false, 0, ""⟩

theorem daemon_fine (h : Admitted base s) {node : String} {svc : ServiceVIP}
    (hm : svc ∈ (buildNet (inputsAt s) node).services) : Netd.Fine svc (addrOf svc) ∧ toLower svc.service = svc.service := by
  obtain ⟨ip, hip, hpool⟩ := listed_vip h.vips hm
  rw [← listingsAt_inputs] at hm
  obtain ⟨svc', hin, vip, -, rfl⟩ := mem_net_services.mp hm
  have hvalid := validate_service (h.services svc' (mem_listing.mp hin))
  have hlower := Netd.toLower_label hvalid.label
  have hof : addrOf ⟨svc'.metadata.name, vip, svc'.spec.port, svc'.spec.targetPort⟩ = ip := by
    unfold addrOf
    rw [hip]
    rfl
  refine ⟨⟨hvalid.named, ?_, ?_, ?_, ?_⟩, hlower⟩
  · show Netd.serviceLabel (toLower svc'.metadata.name) = true
    rw [hlower]
    exact Netd.serviceLabel_of_valid hvalid.label hvalid.short
  · rw [hof]
    exact hip
  · rw [hof]
    exact Netip.contains_is4 rfl hpool
  · rw [hof]
    exact hpool

theorem daemon_accepts (h : Admitted base s) (node : String) (serial : ℕ) :
    ∃ cfg, Netd.parseConfig (buildNet (inputsAt s) node) serial = .ok cfg ∧
      cfg.vips.toList.Perm ((buildNet (inputsAt s) node).services.map fun svc => (svc.service, addrOf svc)) := by
  have hlower : ((buildNet (inputsAt s) node).services.map fun svc => toLower svc.service) =
      (buildNet (inputsAt s) node).services.map (·.service) :=
    List.map_congr_left fun svc hm => (daemon_fine h hm).2
  obtain ⟨cfg, hcfg, hperm⟩ := Netd.parseConfig_accepts (buildNet (inputsAt s) node) serial addrOf
    (fun svc hm => (daemon_fine h hm).1) (by
      rw [hlower, ← listingsAt_inputs]
      exact serviceNames_nodup (listingsAt_distinct s))
  refine ⟨cfg, hcfg, hperm.trans (List.Perm.of_eq ?_)⟩
  apply List.map_congr_left
  intro svc hm
  rw [(daemon_fine h hm).2]

end Daemon

/-- Every node's desired state passes both consumers, under names that are distinct within
each type of resource and with one VIP entry for each listed service. -/
theorem pipeline_accepts (base : Int) (s : Store) (h : Admitted base s) (n : String) (built : NodeSnapshot)
    (hb : (buildAll (inputsAt s))[n]? = some built) (version : String) (serial : ℕ) : validateNet built.net = none ∧
    ((allListeners built.net).map (·.name)).Nodup ∧ ((allClusters built.net).map (·.name)).Nodup ∧
    ((buildEndpoints n built.net).map (·.clusterName)).Nodup ∧
    (∃ snap, buildSnapshot n version built.net = .ok snap ∧ snap.consistent) ∧
    ∃ cfg, Netd.parseConfig built.net serial = .ok cfg ∧ cfg.vips.toList.length = built.net.services.length ∧
      ∀ svc ∈ built.net.services, ∃ ip, Netip.parseAddr svc.vip = some ip ∧ cfg.vips[svc.service]? = some ip := by
  rw [buildAll_net hb]
  have hd := listingsAt_distinct s
  have hs := admitted_screened h
  have hvips : ∀ svc ∈ (buildNet (listingsAt s).inputs n).services, IsAddr svc.vip := by
    intro svc hm
    obtain ⟨ip, hip, -⟩ := listed_vip h.vips hm
    exact ⟨ip, hip⟩
  have hok := screened_ok hd hs hvips
  have hplain := @screened_plain (listingsAt s) n hs
  have hsnap := screened_accepted version hd hs hvips
  rw [listingsAt_inputs] at hok hplain hsnap
  refine ⟨validateNet_none.mpr hok, listeners_nodup hok, clusters_nodup hok hplain, assignments_nodup hok,
    ⟨_, hsnap, (buildSnapshot_ok.mp hsnap).2.1⟩, ?_⟩
  obtain ⟨cfg, hcfg, hperm⟩ := daemon_accepts h n serial
  refine ⟨cfg, hcfg, ?_, ?_⟩
  · rw [hperm.length_eq, List.length_map]
  · intro svc hm
    obtain ⟨ip, hip, -⟩ := listed_vip h.vips hm
    refine ⟨ip, hip, ?_⟩
    apply Table.mem_toList.mp
    apply hperm.mem_iff.mpr
    refine List.mem_map.mpr ⟨svc, hm, ?_⟩
    unfold addrOf
    rw [hip]
    rfl

section Runs

def freshWorld : World :=
  ⟨(((Store.empty.put 7 .service
    { metadata := { name := "web" }
      spec := { selector := mapOf [("app", "web")], port := 80, targetPort := 8080 } } revCreate).2.put 7 .inst
    { metadata := { name := "web-1a2b", labels := mapOf [("app", "web")] }
      spec := { workload := "web", node := "a" }
      status := some { phase := .ready, instanceIp := "10.44.128.5" } } revCreate).2.put 7 .node
    { metadata := { name := "a" }
      status := some { phase := .ready, nodeIndex := 1, advertiseAddress := "192.0.2.1" } } revCreate).2, 7 * second⟩

def allocatedWorld : World :=
  ((ingressReconcile 20000).eval klited calm (vipReconcile.eval klited calm freshWorld).2).2

theorem fresh_facts : (freshWorld.store.listing .service).all (fun svc => (validate .service svc).isNone) ∧
    (freshWorld.store.listing .inst).all (fun i => (Netip.parseAddr i.ip).isSome) ∧
    (freshWorld.store.listing .node).all (fun n => (Netip.parseAddr n.getStatus.advertiseAddress).isSome) := by
  decide +kernel

theorem allocated_admitted : Admitted 20000 allocatedWorld.store := by
  obtain ⟨hsvc, hinst, hnode⟩ := fresh_facts
  have hpass : ∀ {k : Kind} {p : k.Obj → Bool}, (freshWorld.store.listing k).all p → ∀ o, Holds freshWorld.store k o → p o :=
    fun hall o ho => List.all_eq_true.mp hall o (mem_listing.mpr ho)
  obtain ⟨_, _, hagain⟩ := solo_eval _ _ calm calm_reliable (passes_admitted 20000
    (fun svc hs => Option.isNone_iff_eq_none.mp (hpass hsvc svc hs))
    (fun i hi => Or.inr (Option.isSome_iff_exists.mp (hpass hinst i hi)))
    (fun n hn => Or.inr (Option.isSome_iff_exists.mp (hpass hnode n hn))))
  obtain ⟨_, _, hadm⟩ := solo_eval _ _ calm calm_reliable (hagain _ rfl)
  exact hadm

theorem pipeline_accepts_web : ∃ cfg, Netd.parseConfig (buildNet (inputsAt allocatedWorld.store) "a") 1 = .ok cfg ∧
    cfg.vips.toList.length = 1 ∧ (∃ ip, cfg.vips["web"]? = some ip) ∧
    (buildNet (inputsAt allocatedWorld.store) "a").endpoints.length = 1 ∧
    (buildNet (inputsAt allocatedWorld.store) "a").ingressListeners.map (·.port) = [20000] := by
  have hnode : "a" ∈ (inputsAt allocatedWorld.store).nodes := by decide +kernel
  have hservices : (buildNet (inputsAt allocatedWorld.store) "a").services = [⟨"web", "10.44.64.1", 80, 8080⟩] := by
    decide +kernel
  obtain ⟨-, -, -, -, -, cfg, hcfg, hlen, hvips⟩ :=
    pipeline_accepts 20000 allocatedWorld.store allocated_admitted "a" _ (buildAll_get hnode) "1" 1
  rw [hservices] at hlen hvips
  obtain ⟨ip, -, hip⟩ := hvips _ List.mem_cons_self
  exact ⟨cfg, hcfg, hlen, ⟨ip, hip⟩, by decide +kernel, by decide +kernel⟩

end Runs

end Klite
