import Klite.Controller.BuildSpec
import Klite.Xds.Builder

/-!
# What BuildSnapshot accepts, and what it puts where

`validateNet` as a condition on the whole of a `NetDesired`, and the entries of the three
maps of an accepted snapshot.
-/

namespace Klite
open Lib

section Checks

theorem checkAll_none {α κ : Type} {f : List α → α → Option String} (key : α → κ) {P : α → Prop}
    (hf : ∀ seen x, f seen x = none ↔ (∀ s ∈ seen, key s ≠ key x) ∧ P x) (seen l : List α) : checkAll f seen l = none ↔
      (∀ x ∈ l, P x) ∧ (l.map key).Nodup ∧ ∀ x ∈ l, ∀ s ∈ seen, key s ≠ key x := by
  induction l generalizing seen with
  | nil => simp [checkAll]
  | cons x l ih =>
    rw [checkAll, Option.or_eq_none_iff, hf, ih]
    simp only [List.forall_mem_cons, List.map_cons, List.nodup_cons, List.mem_map, not_exists, not_and]
    constructor
    · rintro ⟨⟨hseen, hx⟩, hl, hnd, hrest⟩
      exact ⟨⟨hx, hl⟩, ⟨fun y hy he => (hrest y hy).1 he.symm, hnd⟩, hseen, fun y hy => (hrest y hy).2⟩
    · rintro ⟨⟨hx, hl⟩, ⟨hout, hnd⟩, hseen, hrest⟩
      exact ⟨⟨hseen, hx⟩, hl, hnd, fun y hy => ⟨fun he => hout y hy he.symm, hrest y hy⟩⟩

def IsAddr (s : String) : Prop := ∃ a, Netip.parseAddr s = some a

def IsPort (p : Int) : Prop := 1 ≤ p ∧ p ≤ 65535

theorem validateAddr_none {what s : String} : validateAddr what s = none ↔ IsAddr s := by
  unfold validateAddr IsAddr
  cases Netip.parseAddr s <;> simp

theorem outsidePorts_none {what : String} {low p : Int} : outsidePorts what low p = none ↔ low ≤ p ∧ p ≤ 65535 := by
  unfold outsidePorts
  split
  · simp only [reduceCtorEq, false_iff]
    omega
  · simp only [true_iff]
    omega

structure ServiceOk (svc : ServiceVIP) : Prop where
  named : svc.service ≠ ""
  vip : IsAddr svc.vip
  port : IsPort svc.port

structure EndpointOk (ep : Endpoint) : Prop where
  ip : IsAddr ep.ip
  port : IsPort ep.port
  machine : ep.machineAddress = "" ∨ IsAddr ep.machineAddress
  ingress : 0 ≤ ep.ingressPort ∧ ep.ingressPort ≤ 65535

structure ListenerOk (ing : IngressListener) : Prop where
  named : ing.service ≠ ""
  port : IsPort ing.port
  target : IsPort ing.targetPort
  ip : IsAddr ing.podIp

/- Everything `validateNet` asks of a node's desired state. -/
structure NetOk (net : NetDesired) : Prop where
  services : ∀ svc ∈ net.services, ServiceOk svc
  serviceNames : (net.services.map (·.service)).Nodup
  endpoints : ∀ g ∈ net.endpoints, ∀ ep ∈ g.endpoints, EndpointOk ep
  groupNames : (net.endpoints.map (·.service)).Nodup
  listeners : ∀ ing ∈ net.ingressListeners, ListenerOk ing
  listenerPorts : (net.ingressListeners.map (·.port)).Nodup
  identity : ∀ (ip s : String), net.ipIdentity[ip]? = some s → IsAddr ip

theorem unclaimed_iff {α β : Type} [DecidableEq β] {f : α → β} {seen : List α} {b : β} :
    ¬ (seen.any fun s => f s = b) = true ↔ ∀ s ∈ seen, f s ≠ b := by
  simp

theorem validateServiceVIP_none (seen : List ServiceVIP) (svc : ServiceVIP) :
    validateServiceVIP seen svc = none ↔ (∀ s ∈ seen, s.service ≠ svc.service) ∧ ServiceOk svc := by
  unfold validateServiceVIP
  by_cases hname : svc.service = ""
  · rw [if_pos hname]
    simp only [reduceCtorEq, false_iff]
    exact fun h => h.2.named hname
  · rw [if_neg hname]
    by_cases hdup : (seen.any fun s => s.service = svc.service) = true
    · rw [if_pos hdup]
      simp only [reduceCtorEq, false_iff]
      exact fun h => unclaimed_iff.mpr h.1 hdup
    · rw [if_neg hdup, Option.or_eq_none_iff, validateAddr_none, outsidePorts_none]
      exact ⟨fun h => ⟨unclaimed_iff.mp hdup, hname, h.1, h.2⟩, fun h => ⟨h.2.vip, h.2.port⟩⟩

theorem validateEndpoint_none {svc : String} {ep : Endpoint} : validateEndpoint svc ep = none ↔ EndpointOk ep := by
  unfold validateEndpoint
  simp only [Option.or_eq_none_iff, validateAddr_none, outsidePorts_none]
  have hmachine : (if ep.machineAddress = "" then none
      else validateAddr ("endpoint for " ++ svc ++ ": machine address") ep.machineAddress) = none ↔
      ep.machineAddress = "" ∨ IsAddr ep.machineAddress := by
    by_cases he : ep.machineAddress = ""
    · simp [he]
    · simp [he, validateAddr_none]
  rw [hmachine]
  exact ⟨fun ⟨h₁, h₂, h₃, h₄⟩ => ⟨h₁, h₂, h₃, h₄⟩, fun h => ⟨h.ip, h.port, h.machine, h.ingress⟩⟩

theorem validateEndpointGroup_none (seen : List EndpointGroup) (g : EndpointGroup) :
    validateEndpointGroup seen g = none ↔ (∀ s ∈ seen, s.service ≠ g.service) ∧ ∀ ep ∈ g.endpoints, EndpointOk ep := by
  unfold validateEndpointGroup
  by_cases hdup : (seen.any fun s => s.service = g.service) = true
  · rw [if_pos hdup]
    simp only [reduceCtorEq, false_iff]
    exact fun h => unclaimed_iff.mpr h.1 hdup
  · rw [if_neg hdup, List.findSome?_eq_none_iff]
    simp only [validateEndpoint_none]
    exact ⟨fun h => ⟨unclaimed_iff.mp hdup, h⟩, fun h => h.2⟩

theorem validateIngressListener_none (seen : List IngressListener) (ing : IngressListener) :
    validateIngressListener seen ing = none ↔ (∀ s ∈ seen, s.port ≠ ing.port) ∧ ListenerOk ing := by
  unfold validateIngressListener
  by_cases hname : ing.service = ""
  · rw [if_pos hname]
    simp only [reduceCtorEq, false_iff]
    exact fun h => h.2.named hname
  · rw [if_neg hname]
    simp only [Option.or_eq_none_iff, validateAddr_none, outsidePorts_none]
    have hdup : (if seen.any fun s => s.port = ing.port then
        some ("ingress port " ++ toString ing.port ++ " claimed by two local endpoints") else none) = none ↔
        ∀ s ∈ seen, s.port ≠ ing.port := by
      simp
    rw [hdup]
    exact ⟨fun ⟨h₁, h₂, h₃, h₄⟩ => ⟨h₄, hname, h₁, h₂, h₃⟩, fun h => ⟨h.2.port, h.2.target, h.2.ip, h.1⟩⟩

theorem validateIdentity_none {ids : Std.ExtTreeMap String String} :
    validateIdentity ids = none ↔ ∀ (ip s : String), ids[ip]? = some s → IsAddr ip := by
  unfold validateIdentity
  rw [List.findSome?_eq_none_iff]
  simp only [validateAddr_none]
  constructor
  · intro h ip s hs
    exact h (ip, s) (Table.mem_toList.mpr hs)
  · intro h e he
    exact h e.1 e.2 (Table.mem_toList.mp he)

theorem validateNet_none {net : NetDesired} : validateNet net = none ↔ NetOk net := by
  unfold validateNet
  rw [Option.or_eq_none_iff, Option.or_eq_none_iff, Option.or_eq_none_iff,
    checkAll_none (·.service) validateServiceVIP_none,
    checkAll_none (·.service) validateEndpointGroup_none,
    checkAll_none (·.port) validateIngressListener_none, validateIdentity_none]
  constructor
  · rintro ⟨⟨hs, hsn, -⟩, ⟨he, hen, -⟩, ⟨hl, hln, -⟩, hid⟩
    exact ⟨hs, hsn, he, hen, hl, hln, hid⟩
  · intro h
    exact ⟨⟨h.services, h.serviceNames, fun _ _ _ hs => absurd hs List.not_mem_nil⟩,
      ⟨h.endpoints, h.groupNames, fun _ _ _ hs => absurd hs List.not_mem_nil⟩,
      ⟨h.listeners, h.listenerPorts, fun _ _ _ hs => absurd hs List.not_mem_nil⟩, h.identity⟩

end Checks

section Names

theorem ingressName_inj {a b : IngressListener} (h : ingressName a = ingressName b) :
    a.service = b.service ∧ a.port = b.port := by
  have hl := congrArg String.toList h
  unfold ingressName at hl
  simp only [String.toList_append, List.append_assoc] at hl
  have hl' := List.append_cancel_left hl
  obtain ⟨hs, hp⟩ := split_last (notMem_int rfl (by decide) a.port) (notMem_int rfl (by decide) b.port) hl'
  exact ⟨String.toList_inj.mp hs, toString_int_inj (String.toList_inj.mp hp)⟩

theorem svc_ne_ingress {s : String} {ing : IngressListener} : "svc/" ++ s ≠ ingressName ing := by
  intro h
  have hc := congrArg (fun n => n.toList.head?) h
  simp [ingressName, String.toList_append] at hc

end Names

section Snapshot
variable {node version : String} {net : NetDesired} {snap : XdsSnapshot}

theorem buildSnapshot_ok : buildSnapshot node version net = .ok snap ↔
    NetOk net ∧ (newSnapshot node version net).consistent ∧ snap = newSnapshot node version net := by
  rw [← validateNet_none]
  unfold buildSnapshot
  cases hv : validateNet net with
  | some e => simp
  | none =>
    dsimp only
    by_cases hc : (newSnapshot node version net).consistent
    · simp [hc, eq_comm]
    · simp [hc]

theorem buildSnapshot_accepts (hv : validateNet net = none) (hc : (newSnapshot node version net).consistent) :
    buildSnapshot node version net = .ok (newSnapshot node version net) :=
  buildSnapshot_ok.mpr ⟨validateNet_none.mp hv, hc, rfl⟩

theorem ingress_listener (hok : NetOk net) {ing : IngressListener} (hi : ing ∈ net.ingressListeners) :
    (newSnapshot node version net).listeners[ingressName ing]? = some (buildIngressListener ing) ∧
      (newSnapshot node version net).clusters[ingressName ing]? = some (buildIngressCluster ing) := by
  have hsame : ∀ ing' ∈ net.ingressListeners, ingressName ing' = ingressName ing → ing' = ing := by
    intro ing' hi' hn
    exact List.inj_on_of_nodup_map hok.listenerPorts hi' hi (ingressName_inj hn).2
  -- The ingress entries are written last.
  constructor
  · show (mapOf _)[ingressName ing]? = _
    unfold mapOf
    rw [List.map_append, Table.fill_append, List.map_map, List.map_map]
    exact Table.get_fill_key _ hi fun ing' hi' hn => by rw [hsame ing' hi' hn]
  · show (mapOf _)[ingressName ing]? = _
    unfold mapOf
    rw [List.map_append, Table.fill_append, List.map_map]
    exact Table.get_fill_key _ hi fun ing' hi' hn => by rw [hsame ing' hi' hn]

theorem mem_listeners {n : String} {l : Listener} (h : (newSnapshot node version net).listeners[n]? = some l) :
    n = l.name ∧ ((∃ svc ∈ net.services, l = buildListener net svc) ∨
      ∃ ing ∈ net.ingressListeners, l = buildIngressListener ing) := by
  obtain ⟨l', hl', he⟩ := List.mem_map.mp (mapOf_mem h)
  cases he
  refine ⟨rfl, ?_⟩
  rcases List.mem_append.mp hl' with hl' | hl'
  · obtain ⟨svc, hs, rfl⟩ := List.mem_map.mp hl'
    exact Or.inl ⟨svc, hs, rfl⟩
  · obtain ⟨ing, hi, rfl⟩ := List.mem_map.mp hl'
    exact Or.inr ⟨ing, hi, rfl⟩

theorem buildEndpoints_names {a : LoadAssignment} (h : a ∈ buildEndpoints node net) :
    (∃ g ∈ net.endpoints, a = buildLoadAssignment node g) ∨
      ∃ svc ∈ net.services, (∀ g ∈ net.endpoints, g.service ≠ svc.service) ∧ a = { clusterName := svc.service } := by
  unfold buildEndpoints at h
  rcases List.mem_append.mp h with h | h
  · obtain ⟨g, hg, rfl⟩ := List.mem_map.mp h
    exact Or.inl ⟨g, hg, rfl⟩
  · obtain ⟨svc, hs, rfl⟩ := List.mem_map.mp h
    obtain ⟨hs, hno⟩ := List.mem_filter.mp hs
    refine Or.inr ⟨svc, hs, ?_, rfl⟩
    intro g hg he
    simp only [Bool.not_eq_true', List.any_eq_false, decide_eq_true_eq] at hno
    exact hno g hg he

theorem assignment_group (hok : NetOk net) {g : EndpointGroup} (hg : g ∈ net.endpoints) :
    (newSnapshot node version net).endpoints[g.service]? = some (buildLoadAssignment node g) := by
  have hmem : buildLoadAssignment node g ∈ buildEndpoints node net :=
    List.mem_append_left _ (List.mem_map_of_mem hg)
  apply Table.get_fill_key _ hmem
  intro a ha hn
  rcases buildEndpoints_names ha with ⟨g', hg', rfl⟩ | ⟨svc, hs, hno, rfl⟩
  · rw [List.inj_on_of_nodup_map hok.groupNames hg' hg hn]
  · exact absurd hn.symm (hno g hg)

theorem assignment_empty {svc : ServiceVIP} (hs : svc ∈ net.services)
    (hno : ∀ g ∈ net.endpoints, g.service ≠ svc.service) :
    (newSnapshot node version net).endpoints[svc.service]? = some { clusterName := svc.service } := by
  have hmem : ({ clusterName := svc.service } : LoadAssignment) ∈ buildEndpoints node net := by
    apply List.mem_append_right
    apply List.mem_map.mpr
    refine ⟨svc, List.mem_filter.mpr ⟨hs, ?_⟩, rfl⟩
    simp only [Bool.not_eq_true', List.any_eq_false, decide_eq_true_eq]
    exact hno
  apply Table.get_fill_key _ hmem
  intro a ha hn
  rcases buildEndpoints_names ha with ⟨g', hg', rfl⟩ | ⟨svc', hs', hno', rfl⟩
  · exact absurd hn (hno g' hg')
  · simp only at hn
    rw [hn]

end Snapshot

end Klite
