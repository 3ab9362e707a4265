import Klite.Server.Auth
import Klite.Xds.BuilderSpec
import Klite.Xds.Cache
import Klite.Xds.Rbac

/-!
# PolicyCheck and the data plane (internal/server/policy.go)

`PolicyCheck` evaluates the policies on service names. The data plane compiles them,
expands every source service into the addresses of its instances, and lets Envoy
match the address a connection comes from.
-/

namespace Klite
open Lib

def policyCheck (source target : String) : Code (Except Status Decision) := do
  if source = "" ∨ target = "" then pure (.error ⟨.invalidArgument, "from and to are required"⟩)
  else
    match ← list .networkPolicy with
    | .error e => pure (.error (storeStatus e))
    | .ok (policies, _) => pure (.ok (evaluate policies source target))

theorem policyCheck_evaluates {w : World} {source target : String} (hs : source ≠ "") (ht : target ≠ "") :
    Solo (M := klited) (fun c => c.fault = .none)
      (fun r w' => r = .ok (evaluate (w.store.listing .networkPolicy) source target) ∧ w' = w)
      (policyCheck source target) w := by
  unfold policyCheck
  rw [if_neg (by simp [hs, ht])]
  refine solo_list ?_
  exact ⟨rfl, rfl⟩

def HasAddress (i : Instance) (x : Host) : Prop := ∃ a, Netip.parseAddr i.ip = some a ∧ a.host = x

theorem covers_full (a : Netip.Addr) (x : Host) : a.covers a.bitLen x = true ↔ a.host = x := by
  obtain ⟨is6, bits⟩ := x
  simp [Netip.Addr.covers, Netip.Addr.host]

section Identity
variable {ids : Std.ExtTreeMap String String} {x : Host}

theorem principalsFor_covers (source : String) : ((principalsFor source ids).any fun p => p.covers x) = true ↔
    source = "*" ∨ ∃ ip a, ids[ip]? = some source ∧ Netip.parseAddr ip = some a ∧ a.host = x := by
  unfold principalsFor
  split
  · rename_i h
    simp [h, RbacPrincipal.covers]
  · rename_i h
    rw [List.any_eq_true]
    constructor
    · rintro ⟨p, hp, hc⟩
      obtain ⟨ip, hip, hpa⟩ := List.mem_filterMap.mp hp
      obtain ⟨⟨ip', f⟩, hm, rfl⟩ := List.mem_map.mp hip
      obtain ⟨hm, hf⟩ := List.mem_filter.mp hm
      obtain ⟨a, ha, rfl⟩ := Option.map_eq_some_iff.mp hpa
      refine Or.inr ⟨ip', a, ?_, ha, ?_⟩
      · rw [← of_decide_eq_true hf]
        exact Table.mem_toList.mp hm
      · simp only [RbacPrincipal.covers, ha, Option.any_some] at hc
        exact (covers_full a x).mp hc
    · rintro (hs | ⟨ip, a, hid, ha, hx⟩)
      · exact absurd hs h
      · refine ⟨.directRemoteIp ip a.bitLen, List.mem_filterMap.mpr ⟨ip, ?_, by rw [ha]; rfl⟩, ?_⟩
        · exact List.mem_map.mpr ⟨(ip, source), List.mem_filter.mpr ⟨Table.mem_toList.mpr hid,
            decide_eq_true rfl⟩, rfl⟩
        · simp only [RbacPrincipal.covers, ha, Option.any_some]
          exact (covers_full a x).mpr hx

variable {inp : Inputs} {i : Instance}

theorem identity_of_holder (hi : i ∈ inp.instances) (hx : HasAddress i x)
    (hu : ∀ j ∈ inp.instances, HasAddress j x → j = i) (f : String) :
    (∃ ip a, (buildIPIdentity inp)[ip]? = some f ∧ Netip.parseAddr ip = some a ∧ a.host = x) ↔
      (firstService inp i).map (·.metadata.name) = some f := by
  unfold buildIPIdentity mapOf
  obtain ⟨a, ha, hax⟩ := hx
  have hne : i.ip ≠ "" := by
    intro he
    rw [he] at ha
    cases ha
  constructor
  · rintro ⟨ip, a', hid, ha', hax'⟩
    have hm := (Table.get_fill_some hid).resolve_right (by simp)
    obtain ⟨j, hj, hje⟩ := List.mem_filterMap.mp hm
    split at hje
    · cases hje
    · obtain ⟨svc, hsvc, he⟩ := Option.map_eq_some_iff.mp hje
      cases he
      obtain rfl := hu j hj ⟨a', ha', hax'⟩
      rw [hsvc]
      rfl
  · intro hf
    obtain ⟨svc, hsvc, rfl⟩ := Option.map_eq_some_iff.mp hf
    refine ⟨i.ip, a, Table.get_fill_mem (List.mem_filterMap.mpr ⟨i, hi, ?_⟩) ?_, ha, hax⟩
    · rw [if_neg hne, hsvc]
      rfl
    · -- Another entry under this text would be of another holder.
      intro f' hf'
      obtain ⟨j, hj, hje⟩ := List.mem_filterMap.mp hf'
      split at hje
      · cases hje
      · obtain ⟨svc', hsvc', he⟩ := Option.map_eq_some_iff.mp hje
        obtain ⟨hip, rfl⟩ := Prod.mk.inj he
        obtain rfl := hu j hj ⟨a, by rw [hip]; exact ha, hax⟩
        rw [Option.mem_unique hsvc' hsvc]

end Identity

section Selection
variable {svcs : List Service} {i : Instance}

theorem firstService_least {inp : Inputs} {svc : Service}
    (hs : inp.services = svcs.insertionSort fun a b => a.metadata.name ≤ b.metadata.name)
    (h : firstService inp i = some svc) :
    svc ∈ svcs ∧ selects svc i ∧ ∀ svc' ∈ svcs, selects svc' i → svc.metadata.name ≤ svc'.metadata.name := by
  have hsorted := List.pairwise_insertionSort (fun a b : Service => a.metadata.name ≤ b.metadata.name) svcs
  unfold firstService at h
  rw [hs] at h
  obtain ⟨hsel, as, bs, happ, hnot⟩ := List.find?_eq_some_iff_append.mp h
  refine ⟨(List.mem_insertionSort _).mp (List.mem_of_find?_eq_some h), hsel, fun svc' hm hsel' => ?_⟩
  have hm' := (List.mem_insertionSort fun a b : Service => a.metadata.name ≤ b.metadata.name).mpr hm
  rw [happ] at hm' hsorted
  rcases List.mem_append.mp hm' with hin | hin
  · have := hnot svc' hin
    rw [hsel'] at this
    cases this
  · rcases List.mem_cons.mp hin with rfl | hin
    · exact le_refl _
    · exact List.rel_of_pairwise_cons (List.pairwise_append.mp hsorted).2.1 hin

theorem firstService_none {inp : Inputs}
    (hs : inp.services = svcs.insertionSort fun a b => a.metadata.name ≤ b.metadata.name)
    (h : ∀ svc ∈ svcs, selects svc i = false) : firstService inp i = none := by
  unfold firstService
  rw [hs, List.find?_eq_none]
  intro svc hm
  rw [h svc ((List.mem_insertionSort _).mp hm)]
  exact Bool.false_ne_true

/- The name a connection of the instance is evaluated under: the first service by name
that selects it, or any name that is no rule's source when none does. -/
def EvaluatedAs (svcs : List Service) (policies : List NetworkPolicy) (i : Instance) (s : String) : Prop :=
  (∃ svc ∈ svcs, selects svc i ∧ svc.metadata.name = s ∧
    ∀ svc' ∈ svcs, selects svc' i → s ≤ svc'.metadata.name) ∨
  ((∀ svc ∈ svcs, selects svc i = false) ∧ ∀ p ∈ policies, ∀ r ∈ p.spec.rules, r.source ≠ s)

theorem evaluatedAs_source {inp : Inputs} {policies : List NetworkPolicy} {s : String}
    (hs : inp.services = svcs.insertionSort fun a b => a.metadata.name ≤ b.metadata.name)
    (h : EvaluatedAs svcs policies i s) {p : NetworkPolicy} (hp : p ∈ policies) {r : PolicyRule}
    (hr : r ∈ p.spec.rules) : (firstService inp i).map (·.metadata.name) = some r.source ↔ r.source = s := by
  rcases h with ⟨svc, hm, hsel, rfl, hleast⟩ | ⟨hnone, hsrc⟩
  · cases hf : firstService inp i with
    | none =>
      unfold firstService at hf
      rw [hs, List.find?_eq_none] at hf
      exact absurd hsel (hf svc ((List.mem_insertionSort _).mpr hm))
    | some svc' =>
      obtain ⟨hm', hsel', hleast'⟩ := firstService_least hs hf
      have he : svc'.metadata.name = svc.metadata.name :=
        le_antisymm (hleast' svc hm hsel) (hleast svc' hm' hsel')
      rw [Option.map_some, he, Option.some_inj, eq_comm]
  · rw [firstService_none hs hnone]
    simp [hsrc p hp r hr]

end Selection

section Plane
variable {svcs : List Service} {insts : List Instance} {nodes : List Node} {policies : List NetworkPolicy}
  {vips : List VIPAllocation} {ingress : List IngressAllocation}

theorem somePolicy_compiled {net : NetDesired} (hpol : net.policies = compile policies) {action : PolicyAction}
    {target : String} {f : CompiledPolicy → Prop} {g : PolicyRule → Bool}
    (hfg : ∀ p ∈ policies, ∀ r ∈ p.spec.rules, (f (compileRule p r) ↔ g r)) :
    SomePolicy net action target f ↔ SomeRule policies action fun r => g r && ruleTargets r target := by
  unfold SomePolicy SomeRule
  rw [hpol]
  constructor
  · rintro ⟨pol, hm, ha, ht, hf⟩
    obtain ⟨p, hp, r, hr, rfl⟩ := mem_compile.mp hm
    refine ⟨p, hp, ha, r, hr, ?_⟩
    show (g r && ruleTargets r target) = true
    rw [(hfg p hp r hr).mp hf, Bool.true_and]
    exact ht
  · rintro ⟨p, hp, ha, r, hr, hg⟩
    rw [Bool.and_eq_true] at hg
    exact ⟨compileRule p r, mem_compile.mpr ⟨p, hp, r, hr, rfl⟩, ha, hg.2, (hfg p hp r hr).mpr hg.1⟩

theorem listener_of_service {node version d : String} {net : NetDesired} {snap : XdsSnapshot}
    (hsnap : buildSnapshot node version net = .ok snap) (hd : ∃ svc ∈ net.services, svc.service = d) :
    ∃ svc ∈ net.services, svc.service = d ∧ snap.listeners["svc/" ++ d]? = some (buildListener net svc) := by
  obtain ⟨-, -, rfl⟩ := buildSnapshot_ok.mp hsnap
  obtain ⟨svc, hm, rfl⟩ := hd
  have hin : ("svc/" ++ svc.service, buildListener net svc) ∈ (net.services.map (buildListener net) ++
      net.ingressListeners.map buildIngressListener).map fun l => (l.name, l) :=
    List.mem_map.mpr ⟨_, List.mem_append_left _ (List.mem_map_of_mem hm), rfl⟩
  obtain ⟨l, hget⟩ := Table.get_fill_isSome (t := ∅) hin
  have hfrom := (Table.get_fill_some hget).resolve_right (by simp)
  obtain ⟨l', hm', he⟩ := List.mem_map.mp hfrom
  obtain ⟨hname, rfl⟩ := Prod.mk.inj he
  rcases List.mem_append.mp hm' with hm' | hm'
  · obtain ⟨svc', hsvc', rfl⟩ := List.mem_map.mp hm'
    exact ⟨svc', hsvc', String.append_right_inj _ |>.mp hname, hget⟩
  · -- An ingress listener has another name.
    obtain ⟨ing, -, rfl⟩ := List.mem_map.mp hm'
    have hc := congrArg (fun n => n.toList.head?) hname
    simp [buildIngressListener, ingressName, String.toList_append] at hc

/- The listener decides as `Evaluate` does when the addresses of the caller's principal are
those of the caller's first service. -/
theorem plane_evaluates {node version d s : String} {snap : XdsSnapshot} {i : Instance} {x : Host}
    (hsnap : buildSnapshot node version (buildNet (inputsOf svcs insts nodes policies vips ingress) node) = .ok snap)
    (hd : ∃ svc ∈ (buildNet (inputsOf svcs insts nodes policies vips ingress) node).services, svc.service = d)
    (hid : ∀ f : String, (∃ ip a, (buildIPIdentity (inputsOf svcs insts nodes policies vips ingress))[ip]? = some f ∧
        Netip.parseAddr ip = some a ∧ a.host = x) ↔
      (firstService (inputsOf svcs insts nodes policies vips ingress) i).map (·.metadata.name) = some f)
    (hs : EvaluatedAs svcs policies i s) : ∃ l, snap.listeners["svc/" ++ d]? = some l ∧
      (l.admits x = true ↔ (evaluate policies s d).allowed = true) := by
  obtain ⟨svc, -, hsvc, hl⟩ := listener_of_service hsnap hd
  refine ⟨_, hl, ?_⟩
  rw [admits_buildListener svc hsvc, evaluate_allowed]
  have hcover : ∀ p ∈ policies, ∀ r ∈ p.spec.rules,
      (CompiledPolicy.covers (buildIPIdentity (inputsOf svcs insts nodes policies vips ingress)) x
        (compileRule p r) ↔ ruleFromMatches r s) := by
    intro p hp r hr
    have hsrc := hid r.source
    rw [evaluatedAs_source rfl hs hp hr] at hsrc
    rw [CompiledPolicy.covers, principalsFor_covers]
    simp only [compileRule, ruleFromMatches, Bool.or_eq_true, decide_eq_true_eq]
    exact or_congr Iff.rfl hsrc
  have hany : SomePolicy (buildNet (inputsOf svcs insts nodes policies vips ingress) node) .allow d
      (fun _ => True) ↔ SomeRule policies .allow fun r => true && ruleTargets r d :=
    somePolicy_compiled rfl fun _ _ _ _ => by simp
  simp only [Bool.true_and] at hany
  exact and_congr (not_congr (somePolicy_compiled rfl hcover)) (imp_congr hany (somePolicy_compiled rfl hcover))

theorem identity_of_listed {i : Instance} {x : Host} (hi : i ∈ insts) (hx : HasAddress i x)
    (hu : ∀ j ∈ insts, HasAddress j x → j = i) (f : String) :
    (∃ ip a, (buildIPIdentity (inputsOf svcs insts nodes policies vips ingress))[ip]? = some f ∧
        Netip.parseAddr ip = some a ∧ a.host = x) ↔
      (firstService (inputsOf svcs insts nodes policies vips ingress) i).map (·.metadata.name) = some f := by
  have hmem : ∀ j, j ∈ (inputsOf svcs insts nodes policies vips ingress).instances ↔ j ∈ insts :=
    fun j => List.mem_insertionSort _
  exact identity_of_holder ((hmem i).mpr hi) hx (fun j hj => hu j ((hmem j).mp hj)) f

/- What klited pushes and what `PolicyCheck` answers agree, when nothing is written meanwhile. -/
theorem policyCheck_agrees (w : World) {s d : String} (hs : s ≠ "") (hd : d ≠ "") :
    Solo (M := klited) (fun c => c.fault = .none)
      (fun r w' => w' = w ∧ ∃ inp dec, r = (.ok inp, .ok dec) ∧ ∀ (node version : String) built snap (i : Instance) (x : Host),
        (buildAll inp)[node]? = some built → buildSnapshot node version built.net = .ok snap →
        (∃ svc ∈ built.net.services, svc.service = d) → Holds w.store .inst i → HasAddress i x →
        (∀ j, Holds w.store .inst j → HasAddress j x → j = i) →
        EvaluatedAs (w.store.listing .service) (w.store.listing .networkPolicy) i s →
        ∃ l, snap.listeners["svc/" ++ d]? = some l ∧ (l.admits x = true ↔ dec.allowed = true))
      (do let inp ← listInputs; let dec ← policyCheck s d; pure (inp, dec)) w := by
  refine solo_bind (listInputs_reads w) ?_
  rintro _ _ ⟨rfl, rfl⟩
  refine solo_bind (policyCheck_evaluates hs hd) ?_
  rintro _ _ ⟨rfl, rfl⟩
  refine ⟨rfl, _, _, rfl, ?_⟩
  intro node version built snap i x hnode hsnap hsvc hi hx hu hname
  rw [buildAll_net hnode] at hsnap hsvc
  exact plane_evaluates hsnap hsvc (identity_of_listed (mem_listing.mpr hi) hx fun j hj => hu j (mem_listing.mp hj)) hname

end Plane

/-- On every node and for every service listed there, the listener's filter chain admits a
connection from an address that one instance holds if and only if `Evaluate` allows the
connection under that instance's name. -/
theorem data_plane_evaluates (svcs : List Service) (insts : List Instance) (nodes : List Node)
    (policies : List NetworkPolicy) (vips : List VIPAllocation) (ingress : List IngressAllocation)
    (node version d s : String) (built : NodeSnapshot) (snap : XdsSnapshot) (i : Instance) (x : Host)
    (hnode : (buildAll (inputsOf svcs insts nodes policies vips ingress))[node]? = some built)
    (hsnap : buildSnapshot node version built.net = .ok snap) (hd : ∃ svc ∈ built.net.services, svc.service = d)
    (hi : i ∈ insts) (hx : HasAddress i x) (hu : ∀ j ∈ insts, HasAddress j x → j = i)
    (hs : EvaluatedAs svcs policies i s) : ∃ l, snap.listeners["svc/" ++ d]? = some l ∧
      (l.admits x = true ↔ (evaluate policies s d).allowed = true) := by
  have hnet := buildAll_net hnode
  rw [hnet] at hsnap hd
  exact plane_evaluates hsnap hd (identity_of_listed hi hx hu) hs

section Example

def labelled (app : String) : Labels := (∅ : Labels).insert "app" app

def apiServices : List Service :=
  [{ metadata := { name := "web" }, spec := { selector := labelled "web", port := 80, targetPort := 8080 } },
    { metadata := { name := "api" }, spec := { selector := labelled "api", port := 80, targetPort := 8080 } }]

def labelledInstance : Instance where
  metadata := { name := "web-1a2b", labels := labelled "web" }
  spec := { workload := "web", node := "a" }
  status := some { phase := .ready, instanceIp := "10.44.128.5" }

def denyWeb : NetworkPolicy where
  metadata := { name := "no-web" }
  spec := { action := .deny, rules := [{ source := "web", target := "*", except := ["web"] }] }

def apiInputs : Inputs :=
  inputsOf apiServices [labelledInstance] [] [denyWeb]
    [{ metadata := { name := "api.a" }, service := "api", node := "a", vip := "10.45.0.1" }] []

theorem data_plane_evaluates_denied :
    ∃ l, (newSnapshot "a" "1" (buildNet apiInputs "a")).listeners["svc/api"]? = some l ∧
      l.admits ⟨false, 170688517⟩ = false := by
  have hnode : (buildAll apiInputs)["a"]? =
      some { instances := nodeInstances apiInputs "a", net := buildNet apiInputs "a" } := by decide +kernel
  have haddr : HasAddress labelledInstance ⟨false, 170688517⟩ := ⟨⟨false, 170688517, ""⟩, by decide, rfl⟩
  have hname : EvaluatedAs apiServices [denyWeb] labelledInstance "web" :=
    Or.inl ⟨_, List.mem_cons_self, by decide +kernel, rfl, by decide +kernel⟩
  obtain ⟨l, hl, hadm⟩ := data_plane_evaluates apiServices [labelledInstance] [] [denyWeb] _ [] "a" "1" "api" "web"
    _ _ labelledInstance ⟨false, 170688517⟩ hnode
    (buildSnapshot_accepts (by decide +kernel) (by decide +kernel)) (by decide +kernel) List.mem_cons_self
    haddr (fun j hj _ => List.mem_singleton.mp hj) hname
  refine ⟨l, hl, ?_⟩
  rw [Bool.eq_false_iff, ne_eq, hadm]
  decide +kernel

end Example

end Klite
