import Klite.Controller.Endpoints
import Mathlib.Data.List.Dedup

/-!
# What buildAll puts into a node's snapshot

Membership in the lists and maps of `inputsOf` and `buildNet`, in terms of the objects
that were listed. Listed names are distinct, because they are store keys.
-/

namespace Klite
open Lib

section Maps
variable {V : Type} {l : List (String × V)} {k : String} {v : V}

theorem mapOf_mem (h : (mapOf l)[k]? = some v) : (k, v) ∈ l :=
  (Table.get_fill_some h).resolve_right (by simp)

theorem mapOf_get (hl : (l.map (·.1)).Nodup) : (mapOf l)[k]? = some v ↔ (k, v) ∈ l := by
  constructor
  · exact mapOf_mem
  · intro hm
    apply Table.get_fill_mem hm
    intro v' hm'
    have he := List.inj_on_of_nodup_map hl hm' hm rfl
    exact (Prod.mk.inj he).2

theorem mapOf_none (h : ∀ v, (k, v) ∉ l) : (mapOf l)[k]? = none := by
  unfold mapOf
  rw [Table.get_fill_absent h]
  rfl

end Maps

variable {svc : Service} {inst : Instance}

section Inputs

/- The six lists a pass reads. -/
structure Listings where
  services : List Service := []
  instances : List Instance := []
  nodes : List Node := []
  policies : List NetworkPolicy := []
  vips : List VIPAllocation := []
  ingress : List IngressAllocation := []

def Listings.inputs (l : Listings) : Inputs :=
  inputsOf l.services l.instances l.nodes l.policies l.vips l.ingress

/- Listed names are distinct, because they are store keys. -/
structure Listings.Distinct (l : Listings) : Prop where
  services : (l.services.map (·.metadata.name)).Nodup
  instances : (l.instances.map (·.metadata.name)).Nodup
  nodes : (l.nodes.map (·.metadata.name)).Nodup
  vips : (l.vips.map (·.metadata.name)).Nodup
  ingress : (l.ingress.map (·.metadata.name)).Nodup

variable {l : Listings}

theorem mem_services : svc ∈ l.inputs.services ↔ svc ∈ l.services := List.mem_insertionSort _

theorem mem_instances : inst ∈ l.inputs.instances ↔ inst ∈ l.instances := List.mem_insertionSort _

theorem services_nodup (hd : l.Distinct) : (l.inputs.services.map (·.metadata.name)).Nodup :=
  ((List.perm_insertionSort _ l.services).map _).nodup_iff.mpr hd.services

theorem instances_nodup (hd : l.Distinct) : (l.inputs.instances.map (·.metadata.name)).Nodup :=
  ((List.perm_insertionSort _ l.instances).map _).nodup_iff.mpr hd.instances

theorem mem_nodes {m : String} : m ∈ l.inputs.nodes ↔
    (∃ n ∈ l.nodes, n.metadata.name = m) ∨ ∃ i ∈ l.instances, i.spec.node = m ∧ m ≠ "" := by
  show m ∈ nodeNames l.nodes l.instances ↔ _
  unfold nodeNames
  rw [List.mem_insertionSort, List.mem_dedup, List.mem_append, List.mem_map, List.mem_filter, List.mem_map]
  simp only [decide_eq_true_eq]
  constructor
  · rintro (h | ⟨⟨i, hi, rfl⟩, hne⟩)
    · exact Or.inl h
    · exact Or.inr ⟨i, hi, rfl, hne⟩
  · rintro (h | ⟨i, hi, rfl, hne⟩)
    · exact Or.inl h
    · exact Or.inr ⟨⟨i, hi, rfl⟩, hne⟩

theorem vips_get (hd : l.Distinct) {n vip : String} :
    l.inputs.vips[n]? = some vip ↔ ∃ a ∈ l.vips, a.metadata.name = n ∧ a.vip = vip := by
  show (mapOf (l.vips.map fun a => (a.metadata.name, a.vip)))[n]? = some vip ↔ _
  rw [mapOf_get (by rw [List.map_map]; exact hd.vips), List.mem_map]
  simp only [Prod.mk.injEq]

theorem vips_isSome {a : VIPAllocation} (ha : a ∈ l.vips) : ∃ vip, l.inputs.vips[a.metadata.name]? = some vip := by
  have hm : (a.metadata.name, a.vip) ∈ l.vips.map fun a => (a.metadata.name, a.vip) := List.mem_map_of_mem ha
  exact Table.get_fill_isSome hm

theorem ingress_get (hd : l.Distinct) {n : String} {a : IngressAllocation} :
    l.inputs.ingress[n]? = some a ↔ a ∈ l.ingress ∧ a.metadata.name = n := by
  show (mapOf (l.ingress.map fun a => (a.metadata.name, a)))[n]? = some a ↔ _
  rw [mapOf_get (by rw [List.map_map]; exact hd.ingress), List.mem_map]
  simp only [Prod.mk.injEq]
  constructor
  · rintro ⟨b, hb, hn, rfl⟩
    exact ⟨hb, hn⟩
  · rintro ⟨ha, hn⟩
    exact ⟨a, ha, hn, rfl⟩

theorem advertise_get (hd : l.Distinct) {m addr : String} : l.inputs.advertise[m]? = some addr ↔
    ∃ n ∈ l.nodes, n.metadata.name = m ∧ n.getStatus.advertiseAddress = addr ∧ addr ≠ "" := by
  show (mapOf ((l.nodes.filter fun n => n.getStatus.advertiseAddress ≠ "").map fun n =>
    (n.metadata.name, n.getStatus.advertiseAddress)))[m]? = some addr ↔ _
  have hnodup : (((l.nodes.filter fun n => n.getStatus.advertiseAddress ≠ "").map fun n =>
      (n.metadata.name, n.getStatus.advertiseAddress)).map (·.1)).Nodup := by
    rw [List.map_map]
    exact hd.nodes.sublist (List.filter_sublist.map _)
  rw [mapOf_get hnodup, List.mem_map]
  simp only [List.mem_filter, decide_eq_true_eq, Prod.mk.injEq]
  constructor
  · rintro ⟨n, ⟨hn, hne⟩, rfl, rfl⟩
    exact ⟨n, hn, rfl, rfl, hne⟩
  · rintro ⟨n, hn, rfl, rfl, hne⟩
    exact ⟨n, ⟨hn, hne⟩, rfl, rfl⟩

theorem find_named {α : Type} {l : List α} {key : α → String} (hl : (l.map key).Nodup) {p : α → Bool} {k : String}
    {a : α} (ha : a ∈ l) (hk : key a = k) (hp : p a) (hall : ∀ b, p b → key b = k) : l.find? p = some a := by
  induction l with
  | nil => cases ha
  | cons b l ih =>
    rw [List.map_cons, List.nodup_cons] at hl
    rw [List.find?_cons]
    rcases List.mem_cons.mp ha with rfl | hm
    · rw [hp]
    · cases hb : p b with
      | true => exact absurd (List.mem_map.mpr ⟨a, hm, hk.trans (hall b hb).symm⟩) hl.1
      | false => exact ih hl.2 hm

theorem ingress_find (hd : l.Distinct) (n : String) :
    l.inputs.ingress[n]? = l.ingress.find? fun a => a.metadata.name = n := by
  cases hg : l.inputs.ingress[n]? with
  | some a =>
    obtain ⟨ha, hn⟩ := (ingress_get hd).mp hg
    rw [find_named hd.ingress ha hn (by simpa using hn) fun b hb => by simpa using hb]
  | none =>
    symm
    rw [List.find?_eq_none]
    intro a ha hn
    have hsome := (ingress_get hd).mpr ⟨ha, of_decide_eq_true hn⟩
    rw [hg] at hsome
    cases hsome

theorem advertise_find (hd : l.Distinct) (m : String) : l.inputs.advertise[m]? =
    (l.nodes.find? fun n => n.metadata.name = m && n.getStatus.advertiseAddress ≠ "").map
      fun n => n.getStatus.advertiseAddress := by
  cases hg : l.inputs.advertise[m]? with
  | some addr =>
    obtain ⟨n, hn, hm, rfl, hne⟩ := (advertise_get hd).mp hg
    rw [find_named hd.nodes hn hm (by simpa using ⟨hm, hne⟩) fun b hb => by simp at hb; exact hb.1]
    rfl
  | none =>
    symm
    rw [Option.map_eq_none_iff, List.find?_eq_none]
    intro n hn hp
    simp only [Bool.and_eq_true, decide_eq_true_eq] at hp
    have hsome := (advertise_get hd).mpr ⟨n, hn, hp.1, rfl, hp.2⟩
    rw [hg] at hsome
    cases hsome

end Inputs

section Net
variable {inp : Inputs} {node : String}

theorem buildAll_net {built : NodeSnapshot} (h : (buildAll inp)[node]? = some built) :
    built.net = buildNet inp node := by
  obtain ⟨n, -, he⟩ := List.mem_map.mp (mapOf_mem h)
  cases he
  rfl

theorem buildAll_get (h : node ∈ inp.nodes) :
    (buildAll inp)[node]? = some { instances := nodeInstances inp node, net := buildNet inp node } := by
  apply Table.get_fill_key ∅ h
  intro n _ hn
  rw [hn]

theorem mem_listed {e : Service × String} : e ∈ listedServices inp node ↔
    e.1 ∈ inp.services ∧ inp.vips[allocationName e.1.metadata.name node]? = some e.2 := by
  unfold listedServices
  rw [List.mem_filterMap]
  constructor
  · rintro ⟨svc, hsvc, he⟩
    obtain ⟨vip, hvip, rfl⟩ := Option.map_eq_some_iff.mp he
    exact ⟨hsvc, hvip⟩
  · rintro ⟨hsvc, hvip⟩
    exact ⟨e.1, hsvc, by rw [hvip]; rfl⟩

theorem listed_sublist : ((listedServices inp node).map fun e => e.1.metadata.name).Sublist
    (inp.services.map (·.metadata.name)) := by
  unfold listedServices
  induction inp.services with
  | nil => exact List.Sublist.slnil
  | cons svc l ih =>
    rw [List.filterMap_cons, List.map_cons]
    cases inp.vips[allocationName svc.metadata.name node]? with
    | none => exact ih.cons _
    | some vip => exact ih.cons_cons _

def groupOf (inp : Inputs) (svc : Service) : EndpointGroup :=
  ⟨svc.metadata.name, inp.instances.filterMap (endpointOf inp svc)⟩

theorem groups_get (hn : (inp.services.map (·.metadata.name)).Nodup) (hs : svc ∈ inp.services) :
    (buildGroups inp)[svc.metadata.name]? = some (groupOf inp svc) := by
  unfold buildGroups
  rw [mapOf_get (by rw [List.map_map]; exact hn)]
  exact List.mem_map.mpr ⟨svc, hs, rfl⟩

theorem net_endpoints (hn : (inp.services.map (·.metadata.name)).Nodup) : (buildNet inp node).endpoints =
    ((listedServices inp node).filter fun e => (groupOf inp e.1).endpoints ≠ []).map fun e => groupOf inp e.1 := by
  show (listedServices inp node).filterMap (fun e =>
    let g := (buildGroups inp)[e.1.metadata.name]?.getD {}
    if g.endpoints = [] then none else some g) = _
  have hget : ∀ e ∈ listedServices inp node, (buildGroups inp)[e.1.metadata.name]? = some (groupOf inp e.1) :=
    fun e he => groups_get hn (mem_listed.mp he).1
  generalize listedServices inp node = l at hget
  induction l with
  | nil => rfl
  | cons e l ih =>
    rw [List.filterMap_cons, List.filter_cons, hget e List.mem_cons_self,
      ih fun e he => hget e (List.mem_cons_of_mem _ he)]
    by_cases hempty : (groupOf inp e.1).endpoints = []
    · simp [hempty]
    · simp [hempty]

theorem mem_endpoints {ep : Endpoint} : ep ∈ (groupOf inp svc).endpoints ↔
    ∃ inst ∈ inp.instances, endpointOf inp svc inst = some ep := List.mem_filterMap

theorem endpointOf_some {ep : Endpoint} : endpointOf inp svc inst = some ep ↔
    selects svc inst ∧ ∃ health, endpointHealth inst.phase = some health ∧ inst.ip ≠ "" ∧
      ep = { ip := inst.ip
             port := svc.spec.targetPort
             node := inst.spec.node
             health := health
             ingressPort := (inp.ingress[ingressAllocationName svc.metadata.name inst.metadata.name]?.map
               IngressAllocation.port).getD 0
             machineAddress := inp.advertise.getD inst.spec.node "" } := by
  unfold endpointOf
  cases hs : selects svc inst with
  | false => simp
  | true =>
    cases hh : endpointHealth inst.phase with
    | none => simp
    | some health =>
      by_cases hip : inst.ip = ""
      · simp [hip]
      · simp [hip, eq_comm]

def podIpOf (inp : Inputs) (name : String) : String :=
  ((mapOf (inp.instances.map fun inst => (inst.metadata.name, inst)))[name]?.map Instance.ip).getD ""

def targetPortOf (inp : Inputs) (name : String) : Option Int :=
  (mapOf (inp.services.map fun svc => (svc.metadata.name, svc.spec.targetPort)))[name]?

theorem podIpOf_instance (hn : (inp.instances.map (·.metadata.name)).Nodup) (hi : inst ∈ inp.instances) :
    podIpOf inp inst.metadata.name = inst.ip := by
  have hget : (mapOf (inp.instances.map fun inst => (inst.metadata.name, inst)))[inst.metadata.name]? = some inst := by
    rw [mapOf_get (by rw [List.map_map]; exact hn)]
    exact List.mem_map.mpr ⟨inst, hi, rfl⟩
  unfold podIpOf
  rw [hget]
  rfl

theorem podIpOf_some {name : String} (h : podIpOf inp name ≠ "") :
    ∃ inst ∈ inp.instances, inst.metadata.name = name ∧ podIpOf inp name = inst.ip := by
  unfold podIpOf at h ⊢
  cases hget : (mapOf (inp.instances.map fun inst => (inst.metadata.name, inst)))[name]? with
  | none =>
    rw [hget] at h
    exact absurd rfl h
  | some inst =>
    obtain ⟨i, hi, he⟩ := List.mem_map.mp (mapOf_mem hget)
    obtain ⟨rfl, rfl⟩ := Prod.mk.inj he
    exact ⟨i, hi, rfl, rfl⟩

theorem targetPortOf_service (hn : (inp.services.map (·.metadata.name)).Nodup) (hs : svc ∈ inp.services) :
    targetPortOf inp svc.metadata.name = some svc.spec.targetPort := by
  unfold targetPortOf
  rw [mapOf_get (by rw [List.map_map]; exact hn)]
  exact List.mem_map.mpr ⟨svc, hs, rfl⟩

theorem targetPortOf_some {name : String} {p : Int} (h : targetPortOf inp name = some p) :
    ∃ svc ∈ inp.services, svc.metadata.name = name ∧ svc.spec.targetPort = p := by
  obtain ⟨svc, hs, he⟩ := List.mem_map.mp (mapOf_mem h)
  cases he
  exact ⟨svc, hs, rfl, rfl⟩

def ingressOf (inp : Inputs) (node : String) (a : IngressAllocation) : Option IngressListener :=
  if a.node ≠ node then none
  else match targetPortOf inp a.service with
    | none => none
    | some p => if podIpOf inp a.inst = "" then none else some ⟨a.service, a.port, podIpOf inp a.inst, p⟩

theorem ingressListeners_eq : buildIngressListeners inp node =
    inp.ingress.toList.filterMap fun e => ingressOf inp node e.2 := rfl

theorem ingressOf_some {a : IngressAllocation} {ing : IngressListener} : ingressOf inp node a = some ing ↔
    a.node = node ∧ ∃ p, targetPortOf inp a.service = some p ∧ podIpOf inp a.inst ≠ "" ∧
      ing = ⟨a.service, a.port, podIpOf inp a.inst, p⟩ := by
  unfold ingressOf
  by_cases hn : a.node = node
  · cases hp : targetPortOf inp a.service with
    | none => simp [hn]
    | some p =>
      by_cases hip : podIpOf inp a.inst = ""
      · simp [hn, hip]
      · simp [hn, hip, eq_comm]
  · simp [hn]

theorem mem_ingress {ing : IngressListener} : ing ∈ buildIngressListeners inp node ↔
    ∃ (n : String) (a : IngressAllocation), inp.ingress[n]? = some a ∧ ingressOf inp node a = some ing := by
  rw [ingressListeners_eq, List.mem_filterMap]
  constructor
  · rintro ⟨e, he, ho⟩
    exact ⟨e.1, e.2, Table.mem_toList.mp he, ho⟩
  · rintro ⟨n, a, hg, ho⟩
    exact ⟨(n, a), Table.mem_toList.mpr hg, ho⟩

theorem mem_identity {ip s : String} (h : (buildIPIdentity inp)[ip]? = some s) :
    ∃ inst ∈ inp.instances, inst.ip = ip ∧ ip ≠ "" ∧ (firstService inp inst).map (·.metadata.name) = some s := by
  obtain ⟨inst, hi, he⟩ := List.mem_filterMap.mp (mapOf_mem h)
  split at he
  · cases he
  · rename_i hne
    obtain ⟨svc, hf, heq⟩ := Option.map_eq_some_iff.mp he
    cases heq
    exact ⟨inst, hi, rfl, hne, by rw [hf]; rfl⟩

end Net

end Klite
