import Klite.Safety.PolicyPlane
import Mathlib.Data.Set.Finite.Lemmas

/-!
# The identity a source address has (internal/controller/endpoints.go)

`buildIPIdentity` is one map for the whole cluster, and every node's listeners match
their callers by it. Each machine's Docker hands out addresses of the same range, so two
nodes may have an instance at the same address.
-/

namespace Klite
open Lib

section Spec

/- The first service by name that selects the instance. -/
def IsFirst (svcs : List Service) (inst : Instance) (s : String) : Prop :=
  ∃ svc ∈ svcs, selects svc inst ∧ svc.metadata.name = s ∧
    ∀ svc' ∈ svcs, selects svc' inst → s ≤ svc'.metadata.name

variable (l : Listings)

def UniqueOnNode : Prop :=
  ∀ i ∈ l.instances, ∀ j ∈ l.instances, i.spec.node = j.spec.node → i.ip ≠ "" → i.ip = j.ip → i = j

/- The instance is bound and has an address. -/
def Placed (i : Instance) : Prop := i ∈ l.instances ∧ i.spec.node ≠ "" ∧ i.ip ≠ ""

/- A node's map gives each of its instances the instance's own first service, and
nothing when no service selects it. -/
def IdentityPerNode : Prop :=
  ∀ i, Placed l i → ∃ built, (buildAll l.inputs)[i.spec.node]? = some built ∧
    ∀ s : String, built.net.ipIdentity[i.ip]? = some s ↔ IsFirst l.services i s

/- Some service selects the instance, and none selects a later one with its address. -/
def LastSelected (j : Instance) : Prop :=
  (∃ svc ∈ l.services, selects svc j) ∧ ∀ k ∈ l.instances, k.ip = j.ip → j.metadata.name < k.metadata.name →
    ∀ svc ∈ l.services, selects svc k = false

/- Whoever comes last at an instance's address has the instance's first service. -/
def SharersAgree : Prop :=
  ∀ i, Placed l i → ∀ j ∈ l.instances, j.ip = i.ip → LastSelected l j →
    ∀ s, IsFirst l.services j s ↔ IsFirst l.services i s

-- The `ipRange` of internal/runtime/docker.go, 10.44.128.0/17.
def ipRange : Netip.Prefix := ⟨⟨false, 170688512, ""⟩, 17⟩

def InRange : Prop := ∀ i ∈ l.instances, i.ip ≠ "" → ∃ a, Netip.parseAddr i.ip = some a ∧ ipRange.contains a

end Spec

section Identity
variable {l : Listings} {i : Instance} {s : String}

theorem firstService_iff : (firstService l.inputs i).map (·.metadata.name) = some s ↔ IsFirst l.services i s := by
  constructor
  · intro h
    obtain ⟨svc, hf, rfl⟩ := Option.map_eq_some_iff.mp h
    obtain ⟨hm, hsel, hleast⟩ := firstService_least rfl hf
    exact ⟨svc, hm, hsel, rfl, hleast⟩
  · rintro ⟨svc, hm, hsel, rfl, hleast⟩
    cases hf : firstService l.inputs i with
    | none => exact absurd hsel (List.find?_eq_none.mp hf svc (mem_services.mpr hm))
    | some svc' =>
      have hs : l.inputs.services = l.services.insertionSort fun a b => a.metadata.name ≤ b.metadata.name := rfl
      obtain ⟨hm', hsel', hleast'⟩ := firstService_least hs hf
      rw [Option.map_some, le_antisymm (hleast' svc hm hsel) (hleast svc' hm' hsel')]

theorem identity_last (hd : l.Distinct) {j : Instance} (hj : j ∈ l.instances) (hip : j.ip ≠ "")
    (hlast : LastSelected l j) : (buildIPIdentity l.inputs)[j.ip]? = some s ↔ IsFirst l.services j s := by
  obtain ⟨⟨svc, hsvc, hsel⟩, hlater⟩ := hlast
  have hsome : ∃ svc', firstService l.inputs j = some svc' :=
    Option.isSome_iff_exists.mp (List.find?_isSome.mpr ⟨svc, mem_services.mpr hsvc, hsel⟩)
  obtain ⟨svc', hf⟩ := hsome
  obtain ⟨before, after, happ⟩ := List.append_of_mem (mem_instances.mpr hj)
  have hsorted := List.pairwise_insertionSort (fun a b : Instance => a.metadata.name ≤ b.metadata.name) l.instances
  have hnodup := instances_nodup hd
  rw [show l.instances.insertionSort _ = l.inputs.instances from rfl, happ] at hsorted
  rw [happ, List.map_append, List.map_cons] at hnodup
  have hafter : ∀ k ∈ after, k.ip = j.ip → firstService l.inputs k = none := by
    intro k hk hkip
    have hle := List.rel_of_pairwise_cons (List.pairwise_append.mp hsorted).2.1 hk
    have hne : j.metadata.name ≠ k.metadata.name := by
      intro he
      have hin := (List.nodup_cons.mp (List.nodup_append.mp hnodup).2.1).1
      exact hin (List.mem_map.mpr ⟨k, hk, he.symm⟩)
    have hkl : k ∈ l.instances := mem_instances.mp (by rw [happ]; simp [hk])
    exact firstService_none rfl (hlater k hkl hkip (lt_of_le_of_ne hle hne))
  rw [← firstService_iff, hf]
  unfold buildIPIdentity mapOf
  rw [happ, List.filterMap_append, List.filterMap_cons, if_neg hip, hf, Option.map_some, Table.get_fill_last]
  · rfl
  · intro f hm
    obtain ⟨k, hk, he⟩ := List.mem_filterMap.mp hm
    split at he
    · cases he
    · obtain ⟨svc'', hf', he⟩ := Option.map_eq_some_iff.mp he
      rw [hafter k hk (Prod.mk.inj he).1] at hf'
      cases hf'

theorem exists_last {ip : String} (h : ∃ k ∈ l.instances, k.ip = ip ∧ ∃ svc ∈ l.services, selects svc k) :
    ∃ j ∈ l.instances, j.ip = ip ∧ LastSelected l j := by
  obtain ⟨k, hk, hkip, hsel⟩ := h
  have hfin : {k | k ∈ l.instances ∧ k.ip = ip ∧ ∃ svc ∈ l.services, selects svc k}.Finite :=
    (List.finite_toSet l.instances).subset fun k hk => hk.1
  obtain ⟨j, ⟨hj, hjip, hjsel⟩, hmax⟩ := Set.exists_max_image _ (fun k : Instance => k.metadata.name) hfin
    ⟨k, hk, hkip, hsel⟩
  refine ⟨j, hj, hjip, hjsel, fun m hm hmip hlt svc hsvc => ?_⟩
  by_contra hs
  have hle := hmax m ⟨hm, hmip.trans hjip, svc, hsvc, by simpa using hs⟩
  exact absurd hlt (not_lt.mpr hle)

theorem identity_none {ip : String} (h : ¬ ∃ k ∈ l.instances, k.ip = ip ∧ ∃ svc ∈ l.services, selects svc k) :
    (buildIPIdentity l.inputs)[ip]? ≠ some s := by
  intro hid
  obtain ⟨k, hk, hkip, -, hf⟩ := mem_identity hid
  obtain ⟨svc, hsvc, hsel, -⟩ := firstService_iff.mp hf
  exact h ⟨k, mem_instances.mp hk, hkip, svc, hsvc, hsel⟩

theorem built_of_placed (hi : Placed l i) : ∃ built, (buildAll l.inputs)[i.spec.node]? = some built ∧
    built.net = buildNet l.inputs i.spec.node :=
  ⟨_, buildAll_get (mem_nodes.mpr (Or.inr ⟨i, hi.1, rfl, hi.2.1⟩)), rfl⟩

theorem identity_agrees (hd : l.Distinct) (hs : SharersAgree l) (hi : Placed l i) :
    (buildIPIdentity l.inputs)[i.ip]? = some s ↔ IsFirst l.services i s := by
  by_cases hsel : ∃ k ∈ l.instances, k.ip = i.ip ∧ ∃ svc ∈ l.services, selects svc k
  · obtain ⟨j, hj, hjip, hlast⟩ := exists_last hsel
    rw [← hs i hi j hj hjip hlast s, ← hjip]
    exact identity_last hd hj (by rw [hjip]; exact hi.2.2) hlast
  · refine ⟨fun hid => absurd hid (identity_none hsel), ?_⟩
    rintro ⟨svc, hsvc, hself, -⟩
    exact absurd ⟨i, hi.1, rfl, svc, hsvc, hself⟩ hsel

theorem identityPerNode_iff (hd : l.Distinct) : IdentityPerNode l ↔ SharersAgree l := by
  constructor
  · intro h i hi j hj hjip hlast s
    obtain ⟨built, hb, hid⟩ := h i hi
    rw [← hid s, buildAll_net hb]
    show IsFirst l.services j s ↔ (buildIPIdentity l.inputs)[i.ip]? = some s
    rw [← hjip]
    exact (identity_last hd hj (by rw [hjip]; exact hi.2.2) hlast).symm
  · intro h i hi
    obtain ⟨built, hb, hnet⟩ := built_of_placed hi
    refine ⟨built, hb, fun s => ?_⟩
    rw [hnet]
    exact identity_agrees hd h hi

/- When only bound instances have addresses, the condition is about pairs. -/
theorem sharersAgree_pairs (hb : ∀ i ∈ l.instances, i.ip ≠ "" → i.spec.node ≠ "") : SharersAgree l ↔
    ∀ i ∈ l.instances, ∀ j ∈ l.instances, i.ip ≠ "" → i.ip = j.ip →
      ∀ s, IsFirst l.services i s ↔ IsFirst l.services j s := by
  constructor
  · intro h i hi j hj hip hij s
    by_cases hsel : ∃ k ∈ l.instances, k.ip = i.ip ∧ ∃ svc ∈ l.services, selects svc k
    · obtain ⟨k, hk, hkip, hlast⟩ := exists_last hsel
      have hjp : Placed l j := ⟨hj, hb j hj (hij ▸ hip), hij ▸ hip⟩
      rw [← h i ⟨hi, hb i hi hip, hip⟩ k hk hkip hlast s, h j hjp k hk (hkip.trans hij) hlast s]
    · constructor
      · rintro ⟨svc, hsvc, hs, -⟩
        exact absurd ⟨i, hi, rfl, svc, hsvc, hs⟩ hsel
      · rintro ⟨svc, hsvc, hs, -⟩
        exact absurd ⟨j, hj, hij.symm, svc, hsvc, hs⟩ hsel
  · intro h i hi j hj hjip _ s
    exact h j hj i hi.1 (by rw [hjip]; exact hi.2.2) hjip s

end Identity

section Verdict
variable {l : Listings}

theorem text_of_host (hr : InRange l) {i j : Instance} (hi : i ∈ l.instances) (hj : j ∈ l.instances) {x : Host}
    (hxi : HasAddress i x) (hxj : HasAddress j x) : i.ip = j.ip := by
  obtain ⟨a, ha, hax⟩ := hxi
  obtain ⟨b, hb, hbx⟩ := hxj
  have hplain : ∀ {k : Instance} {c}, k ∈ l.instances → Netip.parseAddr k.ip = some c → c.is6 = false := by
    intro k c hk hc
    have hne : k.ip ≠ "" := by
      intro he
      rw [he] at hc
      cases hc
    obtain ⟨c', hc', hin⟩ := hr k hk hne
    rw [Option.mem_unique hc hc']
    exact Netip.contains_is4 rfl hin
  rw [Netip.parseAddr_text ha (hplain hi ha), Netip.parseAddr_text hb (hplain hj hb)]
  have hbits : a.bits = b.bits := congrArg Host.bits (hax.trans hbx.symm)
  unfold Netip.Addr.string Netip.Addr.octets
  rw [hbits]

theorem identity_of_host (hd : l.Distinct) (hs : SharersAgree l) (hr : InRange l) {i : Instance} (hi : Placed l i)
    {x : Host} (hx : HasAddress i x) (f : String) :
    (∃ ip a, (buildIPIdentity l.inputs)[ip]? = some f ∧ Netip.parseAddr ip = some a ∧ a.host = x) ↔
      (firstService l.inputs i).map (·.metadata.name) = some f := by
  rw [firstService_iff, ← identity_agrees hd hs hi]
  constructor
  · rintro ⟨ip, a, hid, ha, hax⟩
    obtain ⟨j, hj, rfl, -⟩ := mem_identity hid
    rw [text_of_host hr hi.1 (mem_instances.mp hj) hx ⟨a, ha, hax⟩]
    exact hid
  · intro hid
    obtain ⟨a, ha, hax⟩ := hx
    exact ⟨i.ip, a, hid, ha, hax⟩

/- What the node's listener of the service does with a connection from the address. -/
def Handles (l : Listings) (node version d : String) (x : Host) (v : Bool) : Prop :=
  ∃ built snap lis, (buildAll l.inputs)[node]? = some built ∧ buildSnapshot node version built.net = .ok snap ∧
    snap.listeners["svc/" ++ d]? = some lis ∧ lis.admits x = v

theorem handles_evaluates (hd : l.Distinct) (hs : SharersAgree l) (hr : InRange l) {i : Instance} {x : Host}
    (hi : Placed l i) (hx : HasAddress i x) {version d s : String} {v : Bool}
    (he : EvaluatedAs l.services l.policies i s) (hv : Handles l i.spec.node version d x v) :
    v = (evaluate l.policies s d).allowed := by
  obtain ⟨built, snap, lis, hb, hsnap, hl, rfl⟩ := hv
  rw [buildAll_net hb] at hsnap
  have hnamed : ∃ svc ∈ (buildNet l.inputs i.spec.node).services, svc.service = d := by
    obtain ⟨-, -, rfl⟩ := buildSnapshot_ok.mp hsnap
    obtain ⟨hname, ⟨svc, hsvc, rfl⟩ | ⟨ing, -, rfl⟩⟩ := mem_listeners hl
    · exact ⟨svc, hsvc, (String.append_right_inj _).mp hname.symm⟩
    · exact absurd hname svc_ne_ingress
  obtain ⟨lis', hl', hadm⟩ := plane_evaluates hsnap hnamed (identity_of_host hd hs hr hi hx) he
  obtain rfl := Option.mem_unique hl hl'
  exact Bool.eq_iff_iff.mpr hadm

theorem exists_evaluatedAs (svcs : List Service) (policies : List NetworkPolicy) (i : Instance) :
    ∃ s, EvaluatedAs svcs policies i s := by
  by_cases hsel : ∃ svc ∈ svcs, selects svc i
  · obtain ⟨svc, hsvc, hs⟩ := hsel
    have hfin : {svc | svc ∈ svcs ∧ selects svc i}.Finite := (List.finite_toSet svcs).subset fun svc h => h.1
    obtain ⟨first, ⟨hf, hfs⟩, hmin⟩ := Set.exists_min_image _ (fun svc : Service => svc.metadata.name) hfin
      ⟨svc, hsvc, hs⟩
    exact ⟨_, Or.inl ⟨first, hf, hfs, rfl, fun svc' hm hs' => hmin svc' ⟨hm, hs'⟩⟩⟩
  · -- Some name is no rule's source.
    have hinf : Infinite String := Infinite.of_injective String.ofList fun _ _ h => String.ofList_injective h
    let sources := policies.flatMap fun p => p.spec.rules.map (·.source)
    obtain ⟨s, hs⟩ := (List.finite_toSet sources).exists_notMem
    refine ⟨s, Or.inr ⟨fun svc hm => ?_, fun p hp r hr he => ?_⟩⟩
    · by_contra h
      exact hsel ⟨svc, hm, by simpa using h⟩
    · exact hs (List.mem_flatMap.mpr ⟨p, hp, List.mem_map.mpr ⟨r, hr, he⟩⟩)

end Verdict

/-- Every node's map gives its instances their own first services exactly when the instances
that share an address agree on it. Then what a node does with a connection of one of its
instances follows from the instance's own name, and no other instance changes it. -/
theorem source_identity (l : Listings) (hd : l.Distinct) : (IdentityPerNode l ↔ SharersAgree l) ∧
    ((∀ i ∈ l.instances, i.ip ≠ "" → i.spec.node ≠ "") → (SharersAgree l ↔
      ∀ i ∈ l.instances, ∀ j ∈ l.instances, i.ip ≠ "" → i.ip = j.ip →
        ∀ s, IsFirst l.services i s ↔ IsFirst l.services j s)) ∧
    (SharersAgree l → InRange l → ∀ i x, Placed l i → HasAddress i x → ∀ version d v,
      Handles l i.spec.node version d x v →
        (∀ s, EvaluatedAs l.services l.policies i s → v = (evaluate l.policies s d).allowed) ∧
        ∀ l' : Listings, l'.Distinct → SharersAgree l' → InRange l' → l'.services = l.services →
          l'.policies = l.policies → i ∈ l'.instances →
          ∀ version' v', Handles l' i.spec.node version' d x v' → v' = v) := by
  refine ⟨identityPerNode_iff hd, sharersAgree_pairs, ?_⟩
  intro hs hr i x hi hx version d v hv
  refine ⟨fun s he => handles_evaluates hd hs hr hi hx he hv, ?_⟩
  intro l' hd' hs' hr' hsvcs hpols hi' version' v' hv'
  obtain ⟨s, he⟩ := exists_evaluatedAs l.services l.policies i
  have he' : EvaluatedAs l'.services l'.policies i s := by
    rw [hsvcs, hpols]
    exact he
  have hv2 := handles_evaluates hd' hs' hr' ⟨hi', hi.2⟩ hx he' hv'
  rw [hv2, handles_evaluates hd hs hr hi hx he hv, hpols]

section Example

def jobInstance : Instance where
  metadata := { name := "job-9f0e" }
  spec := { workload := "job", node := "b" }
  status := some { phase := .ready, instanceIp := "10.44.128.5" }

def withJob (others : List Instance) : Listings where
  services := apiServices
  instances := jobInstance :: others
  policies := [denyWeb]
  vips := [{ metadata := { name := "api.b" }, service := "api", node := "b", vip := "10.45.0.1" }]

theorem withJob_beside : (withJob [labelledInstance]).Distinct := by
  constructor <;> decide +kernel

theorem withJob_inRange {others : List Instance} (h : ∀ i ∈ others, i.ip = "10.44.128.5") : InRange (withJob others) := by
  intro i hi _
  have hip : i.ip = "10.44.128.5" := by
    rcases List.mem_cons.mp hi with rfl | hi
    · rfl
    · exact h i hi
  rw [hip]
  exact ⟨⟨false, 170688517, ""⟩, by decide, by decide⟩

theorem withJob_handles (others : List Instance) (v : Bool) (hb : (buildAll (withJob others).inputs)["b"]?.isSome)
    (hok : validateNet (buildNet (withJob others).inputs "b") = none ∧
      (newSnapshot "b" "1" (buildNet (withJob others).inputs "b")).consistent)
    (hl : (newSnapshot "b" "1" (buildNet (withJob others).inputs "b")).listeners["svc/api"]?.map
      (·.admits ⟨false, 170688517⟩) = some v) : Handles (withJob others) "b" "1" "api" ⟨false, 170688517⟩ v := by
  obtain ⟨built, hb⟩ := Option.isSome_iff_exists.mp hb
  obtain ⟨lis, hlis, hv⟩ := Option.map_eq_some_iff.mp hl
  refine ⟨built, _, lis, hb, ?_, hlis, hv⟩
  rw [buildAll_net hb]
  exact buildSnapshot_accepts hok.1 hok.2

/-- An instance of another machine gives a plain instance its identity: the connection that
is let through without it is closed. -/
theorem address_of_other_machine : (withJob [labelledInstance]).Distinct ∧ UniqueOnNode (withJob [labelledInstance]) ∧
    InRange (withJob [labelledInstance]) ∧ Placed (withJob [labelledInstance]) jobInstance ∧
    (∀ svc ∈ apiServices, selects svc jobInstance = false) ∧
    (∃ built, (buildAll (withJob [labelledInstance]).inputs)["b"]? = some built ∧
      built.net.ipIdentity["10.44.128.5"]? = some "web") ∧
    Handles (withJob [labelledInstance]) "b" "1" "api" ⟨false, 170688517⟩ false ∧
    Handles (withJob []) "b" "1" "api" ⟨false, 170688517⟩ true := by
  refine ⟨withJob_beside, ?_, withJob_inRange (by decide), ?_, by decide +kernel,
    ⟨_, buildAll_get (by decide +kernel), by decide +kernel⟩, ?_, ?_⟩
  · intro i hi j hj hnode
    simp only [withJob, List.mem_cons, List.not_mem_nil, or_false] at hi hj
    rcases hi with rfl | rfl <;> rcases hj with rfl | rfl <;> revert hnode <;> decide +kernel
  · exact ⟨List.mem_cons_self, by decide, by decide⟩
  · exact withJob_handles _ _ (by decide +kernel) (by decide +kernel) (by decide +kernel)
  · exact withJob_handles _ _ (by decide +kernel) (by decide +kernel) (by decide +kernel)

-- On another machine, at the address of the job.
def batchInstance : Instance where
  metadata := { name := "batch-1c2d" }
  spec := { workload := "batch", node := "a" }
  status := some { phase := .ready, instanceIp := "10.44.128.5" }

theorem source_identity_shared : IdentityPerNode (withJob [batchInstance]) ∧
    Handles (withJob [batchInstance]) "b" "1" "api" ⟨false, 170688517⟩ true ∧
    (∀ s, EvaluatedAs apiServices [denyWeb] jobInstance s → (evaluate [denyWeb] s "api").allowed = true) ∧
    ∀ version v, Handles (withJob []) "b" version "api" ⟨false, 170688517⟩ v → v = true := by
  have hd : (withJob [batchInstance]).Distinct := by constructor <;> decide +kernel
  have hd' : (withJob []).Distinct := by constructor <;> decide +kernel
  have hnone : ∀ i ∈ [jobInstance, batchInstance], ∀ s, ¬ IsFirst apiServices i s := by
    rintro i hi s ⟨svc, hsvc, hs, -⟩
    have hplain : ∀ i ∈ [jobInstance, batchInstance], ∀ svc ∈ apiServices, selects svc i = false := by decide +kernel
    rw [hplain i hi svc hsvc] at hs
    cases hs
  obtain ⟨hiff, hpairs, hverdict⟩ := source_identity (withJob [batchInstance]) hd
  have hagree : SharersAgree (withJob [batchInstance]) :=
    (hpairs (by decide)).mpr fun i hi j hj _ _ s => iff_of_false (hnone i hi s) (hnone j hj s)
  have hagree' : SharersAgree (withJob []) := by
    intro i hi j hj _ _ s
    rw [List.mem_singleton.mp hi.1, List.mem_singleton.mp hj]
  have hhandles : Handles (withJob [batchInstance]) "b" "1" "api" ⟨false, 170688517⟩ true :=
    withJob_handles _ _ (by decide +kernel) (by decide +kernel) (by decide +kernel)
  obtain ⟨hevaluates, hsame⟩ := hverdict hagree (withJob_inRange (by decide)) jobInstance ⟨false, 170688517⟩
    ⟨List.mem_cons_self, by decide, by decide⟩ ⟨⟨false, 170688517, ""⟩, by decide, rfl⟩ "1" "api" true hhandles
  refine ⟨hiff.mpr hagree, hhandles, fun s he => (hevaluates s he).symm, fun version v hv => ?_⟩
  exact hsame (withJob []) hd' hagree' (withJob_inRange (by decide)) rfl rfl List.mem_cons_self version v hv

end Example

end Klite
