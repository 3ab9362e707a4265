import Klite.Controller.IngressSpec

/-!
# The ingress allocator repairs any store (internal/controller/ingress.go)

Every node owns a slice of host ports. A pass of the controller that is alone leaves each
allocation inside its node's slice and no port twice, whatever the store held before, and
it gives up on a name only when the slice is full.
-/

namespace Klite
open Lib

section Pairs
variable {base : Int} {s s' : Store}

/- A service and a bound instance it selects, on a node that has a slice. -/
structure IngressPair (base : Int) (s : Store) (svc : Service) (inst : Instance) (node : Node) : Prop where
  heldService : Holds s .service svc
  heldInst : Holds s .inst inst
  heldNode : Holds s .node node
  bound : inst.spec.node ≠ ""
  onNode : node.metadata.name = inst.spec.node
  selected : selects svc inst
  hasSlice : HasSlice base node

/- The pair that the name of an allocation stands for. -/
structure PairOf (base : Int) (s : Store) (n : String) (svc : Service) (inst : Instance) (node : Node) : Prop
    extends IngressPair base s svc inst node where
  name : n = ingressAllocationName svc.metadata.name inst.metadata.name
  wanted : (ingressWants base s)[n]? = some ⟨svc.metadata.name, inst.metadata.name, inst.spec.node⟩

theorem pairOf_of_wants (hov : NoOverflow base (s.listing .node)) {n : String} {sp : IngressAllocationSpec}
    (h : (ingressWants base s)[n]? = some sp) :
    ∃ svc inst node, PairOf base s n svc inst node ∧ sp = ⟨svc.metadata.name, inst.metadata.name, inst.spec.node⟩ := by
  obtain ⟨svc, inst, hsvc, hinst, hsel, hbound, hname, rfl, r, hr⟩ := wants_some h
  obtain ⟨node, hnode, hon, hrange⟩ := rangeOf_some hr
  have hslice := ((nodeRange_slice hov (mem_listing.mpr hnode)).mp hrange).1
  exact ⟨svc, inst, node, ⟨⟨hsvc, hinst, hnode, hbound, hon, hsel, hslice⟩, hname, h⟩, rfl⟩

section Slice
variable {node : Node} (hov : NoOverflow base (s.listing .node)) (hnode : Holds s .node node) (hs : HasSlice base node)
include hov hnode hs

theorem range_slice : rangeOf base (indexesOf (s.listing .node)) node.metadata.name =
      some (base + 32 * (node.index - 1), base + 32 * node.index) := by
  rw [rangeOf_node hnode]
  exact (nodeRange_slice hov (mem_listing.mpr hnode)).mpr ⟨hs, rfl⟩

theorem mem_room {p : Int} :
    p ∈ slice (rangeOf base (indexesOf (s.listing .node)) node.metadata.name) ↔ InSlice base node p := by
  rw [range_slice hov hnode hs]
  exact mem_ports

theorem inRange_slice {p : Int} :
    inRange p (rangeOf base (indexesOf (s.listing .node)) node.metadata.name) ↔ InSlice base node p := by
  rw [← mem_slice]
  exact mem_room hov hnode hs

end Slice

theorem pair_wanted (hov : NoOverflow base (s.listing .node)) {svc : Service} {inst : Instance} {node : Node}
    (h : IngressPair base s svc inst node) :
    ∃ sp, (ingressWants base s)[ingressAllocationName svc.metadata.name inst.metadata.name]? = some sp ∧
      ((∀ svc', Holds s .service svc' → '.' ∉ svc'.metadata.name.toList) →
        sp = ⟨svc.metadata.name, inst.metadata.name, inst.spec.node⟩) := by
  have hr := range_slice hov h.heldNode h.hasSlice
  rw [h.onNode] at hr
  exact wants_pair h.heldService h.heldInst h.selected h.bound hr

end Pairs

section Repaired

/- What an undisturbed pass leaves. -/
structure IngressRepaired (base : Int) (s s' : Store) : Prop where
  belongs : ∀ a, Holds s' .ingressAllocation a → ∃ svc inst node, PairOf base s a.metadata.name svc inst node ∧
    a.node = inst.spec.node ∧ InSlice base node a.port
  distinct : ∀ a a', Holds s' .ingressAllocation a → Holds s' .ingressAllocation a' → a.port = a'.port → a = a'
  untouched : ∀ a svc inst node, Holds s .ingressAllocation a → PairOf base s a.metadata.name svc inst node →
    a.node = inst.spec.node → InSlice base node a.port →
    (∀ a', Holds s .ingressAllocation a' → a'.metadata.name < a.metadata.name → a'.port ≠ a.port) →
    Holds s' .ingressAllocation a
  missing : ∀ n svc inst node, PairOf base s n svc inst node →
    (∀ a, Holds s' .ingressAllocation a → a.metadata.name ≠ n) → ∀ p, InSlice base node p →
    (∃ a, Holds s .ingressAllocation a ∧ a.port = p) ∨
      ∃ a, Holds s' .ingressAllocation a ∧ ¬ Holds s .ingressAllocation a ∧ a.port = p
  pairs : ∀ svc inst node, IngressPair base s svc inst node → ∃ svc' inst' node',
    PairOf base s (ingressAllocationName svc.metadata.name inst.metadata.name) svc' inst' node' ∧
      ((∀ svc'', Holds s .service svc'' → '.' ∉ svc''.metadata.name.toList) → svc' = svc ∧ inst' = inst ∧ node' = node)
  others : ∀ k, k ≠ .ingressAllocation → s'.tbl k = s.tbl k

variable {base : Int} {s s' : Store}

theorem addr_port {index : Indexes} {a : IngressAllocation} {p : Int}
    (h : (ingressScheme base index).addr a = some p) : a.port = p := by
  have h' : (if a.port > 0 then some a.port else none) = some p := h
  split at h'
  · exact Option.some.inj h'
  · cases h'

theorem ingress_repaired (hov : NoOverflow base (s.listing .node))
    (ho : Outcome (ingressScheme base (indexesOf (s.listing .node))) (ingressWants base s) s s') :
    IngressRepaired base s s' := by
  -- A record that fits is on the node of its pair, inside the node's slice.
  have hfit : ∀ a, Holds s' .ingressAllocation a → ∃ svc inst node, PairOf base s a.metadata.name svc inst node ∧
      a.node = inst.spec.node ∧ InSlice base node a.port := by
    intro a ha
    obtain ⟨sp, hsp, hok⟩ := outcome_ok ho ha
    obtain ⟨hnode, hrange⟩ := of_decide_eq_true hok
    obtain ⟨svc, inst, node, hpair, rfl⟩ := pairOf_of_wants hov hsp
    have hon : a.node = node.metadata.name := hnode.symm.trans hpair.onNode.symm
    rw [hon, inRange_slice hov hpair.heldNode hpair.hasSlice] at hrange
    exact ⟨svc, inst, node, hpair, hnode.symm, hrange⟩
  refine ⟨hfit, ?_, ?_, ?_, ?_, ho.others⟩
  · intro a a' ha ha' hport
    have hpos : ∀ a, Holds s' .ingressAllocation a → a.port > 0 := by
      intro a ha
      obtain ⟨_, _, node, hpair, _, hin⟩ := hfit a ha
      have hlo := hpair.hasSlice.2.1
      have hge := hin.1
      omega
    apply outcome_distinct ho ha ha' (d := a.port)
    · exact if_pos (hpos a ha)
    · show (if a'.port > 0 then some a'.port else none) = some a.port
      rw [if_pos (hpos a' ha'), hport]
  · intro a svc inst node ha hpair hnode hin hfirst
    have hon : a.node = node.metadata.name := hnode.trans hpair.onNode.symm
    apply outcome_untouched ho ha hpair.wanted
    · apply decide_eq_true
      refine ⟨hnode.symm, ?_⟩
      rw [hon, inRange_slice hov hpair.heldNode hpair.hasSlice]
      exact hin
    · intro a' ha' hlt heq
      have hlo := hpair.hasSlice.2.1
      have hge := hin.1
      have haddr : (ingressScheme base (indexesOf (s.listing .node))).addr a = some a.port := if_pos (by omega)
      rw [haddr] at heq
      exact hfirst a' ha' hlt (addr_port heq)
  · intro n svc inst node hpair hnone p hin
    have hroom : p ∈ slice (rangeOf base (indexesOf (s.listing .node)) inst.spec.node) := by
      rw [← hpair.onNode]
      exact (mem_room hov hpair.heldNode hpair.hasSlice).mpr hin
    rcases outcome_missing ho hpair.wanted hnone hroom with ⟨a, ha, hp⟩ | ⟨a, ha, hnew, hp⟩
    · exact Or.inl ⟨a, ha, addr_port hp⟩
    · exact Or.inr ⟨a, ha, hnew, addr_port hp⟩
  · intro svc inst node hp
    obtain ⟨sp, hsp, hown⟩ := pair_wanted hov hp
    obtain ⟨svc', inst', node', hpair, hspec⟩ := pairOf_of_wants hov hsp
    refine ⟨svc', inst', node', hpair, ?_⟩
    intro hdots
    rw [hown hdots] at hspec
    simp only [IngressAllocationSpec.mk.injEq] at hspec
    obtain ⟨hs, hi, hn⟩ := hspec
    refine ⟨?_, ?_, ?_⟩
    · exact listing_name_inj (mem_listing.mpr hpair.heldService) (mem_listing.mpr hp.heldService) hs.symm
    · exact listing_name_inj (mem_listing.mpr hpair.heldInst) (mem_listing.mpr hp.heldInst) hi.symm
    · apply listing_name_inj (mem_listing.mpr hpair.heldNode) (mem_listing.mpr hp.heldNode)
      exact hpair.onNode.trans (hn.symm.trans hp.onNode.symm)

end Repaired

section Converge
variable {base : Int} {s s' : Store}

def SlicesDisjoint (base : Int) (s : Store) : Prop :=
  ∀ a b, Holds s .node a → Holds s .node b → HasSlice base a → HasSlice base b → a ≠ b →
    ∀ p, InSlice base a p → ¬ InSlice base b p

def FewPairs (base : Int) (s : Store) : Prop :=
  ∀ node, (ingressWants base s).toList.countP (fun e => e.2.node = node) ≤ 32

theorem rooms_disjoint (hov : NoOverflow base (s.listing .node)) (hd : SlicesDisjoint base s) {c c' : String}
    (hne : c' ≠ c) {p : Int} (hp : p ∈ slice (rangeOf base (indexesOf (s.listing .node)) c')) :
    p ∉ slice (rangeOf base (indexesOf (s.listing .node)) c) := by
  have hnode : ∀ {m : String}, p ∈ slice (rangeOf base (indexesOf (s.listing .node)) m) →
      ∃ n, Holds s .node n ∧ n.metadata.name = m ∧ HasSlice base n ∧ InSlice base n p := by
    intro m hm
    cases hr : rangeOf base (indexesOf (s.listing .node)) m with
    | none =>
      rw [hr] at hm
      cases hm
    | some r =>
      obtain ⟨n, hn, rfl, hrange⟩ := rangeOf_some hr
      have hslice := ((nodeRange_slice hov (mem_listing.mpr hn)).mp hrange).1
      exact ⟨n, hn, rfl, hslice, (mem_room hov hn hslice).mp hm⟩
  intro hp'
  obtain ⟨a, ha, han, has, hap⟩ := hnode hp
  obtain ⟨b, hb, hbn, hbs, hbp⟩ := hnode hp'
  apply hd a b ha hb has hbs _ p hap hbp
  intro he
  rw [← han, ← hbn, he] at hne
  exact hne rfl

theorem ingress_served (hov : NoOverflow base (s.listing .node)) (hd : SlicesDisjoint base s) (hfew : FewPairs base s)
    {s₁ s₂ : Store} (hs : Settled (ingressScheme base (indexesOf (s.listing .node))) (ingressWants base s) s₁)
    (ho : Outcome (ingressScheme base (indexesOf (s.listing .node))) (ingressWants base s) s₁ s₂) :
    Served (ingressWants base s) .ingressAllocation s₂ := by
  intro n sp hsp
  obtain ⟨svc, inst, node, hpair, rfl⟩ := pairOf_of_wants hov hsp
  apply settled_served (c := inst.spec.node) (slice_nodup _) (fun c' hne p hp => rooms_disjoint hov hd hne hp)
    hs ho _ _ hsp rfl
  · intro sp a p hok hp hroom
    obtain ⟨hnode, hrange⟩ := of_decide_eq_true hok
    by_contra hne
    have hin : p ∈ slice (rangeOf base (indexesOf (s.listing .node)) sp.node) := by
      rw [hnode, ← addr_port hp]
      exact mem_slice.mpr hrange
    exact rooms_disjoint hov hd hne hin hroom
  · have hlen : (slice (rangeOf base (indexesOf (s.listing .node)) inst.spec.node)).length = 32 := by
      rw [← hpair.onNode, range_slice hov hpair.heldNode hpair.hasSlice]
      simp only [slice, ports, Option.elim_some, List.length_map, List.length_range]
      omega
    exact (hfew inst.spec.node).trans hlen.ge

theorem solo_again {w : World} (h : ∀ k, k ≠ .ingressAllocation → w.store.tbl k = s.tbl k) :
    Alone (fun _ w' => Outcome (ingressScheme base (indexesOf (s.listing .node)))
      (ingressWants base s) w.store w'.store) (ingressReconcile base) w := by
  have hgo := solo_ingressReconcile base w
  obtain ⟨hwants, hnodes⟩ := wants_of_tbl base h
  rw [hwants, hnodes] at hgo
  exact hgo

/- The first pass repairs the store. Where the slices are disjoint and no node has more pairs
than ports, the second serves every pair and a further one writes nothing. -/
theorem ingress_repair (base : Int) (w : World) (hov : NoOverflow base (w.store.listing .node)) :
    Alone (fun _ w₁ => IngressRepaired base w.store w₁.store ∧
      (SlicesDisjoint base w.store → FewPairs base w.store → ∀ w₁', w₁'.store = w₁.store →
        Alone (fun _ w₂ => IngressRepaired base w₁.store w₂.store ∧
          (∀ svc inst node, IngressPair base w.store svc inst node → ∃! a, Holds w₂.store .ingressAllocation a ∧
              a.metadata.name = ingressAllocationName svc.metadata.name inst.metadata.name) ∧
          ∀ w₂', w₂'.store = w₂.store → Alone (fun _ w₃ => w₃.store = w₂.store) (ingressReconcile base) w₂')
          (ingressReconcile base) w₁')) (ingressReconcile base) w := by
  apply solo_mono _ (solo_ingressReconcile base w)
  intro _ w₁ ho₁
  refine ⟨ingress_repaired hov ho₁, ?_⟩
  intro hd hfew w₁' hw₁
  have hsame₁ : ∀ k, k ≠ .ingressAllocation → w₁'.store.tbl k = w.store.tbl k := by
    rw [hw₁]
    exact ho₁.others
  apply solo_mono _ (solo_again hsame₁)
  intro _ w₂ ho₂
  rw [hw₁] at ho₂ hsame₁
  have hserved := ingress_served hov hd hfew (outcome_settled ho₁) ho₂
  have hrepaired : IngressRepaired base w₁.store w₂.store := by
    obtain ⟨hwants, hnodes⟩ := wants_of_tbl base ho₁.others
    apply ingress_repaired
    · rw [hnodes]
      exact hov
    · rw [hwants, hnodes]
      exact ho₂
  refine ⟨hrepaired, ?_, ?_⟩
  · intro svc inst node hpair
    obtain ⟨sp, hsp, -⟩ := pair_wanted hov hpair
    obtain ⟨a, ha, hn⟩ := hserved _ sp hsp
    refine ⟨a, ⟨ha, hn⟩, ?_⟩
    rintro a' ⟨ha', hn'⟩
    exact holds_inj ha' ha (hn'.trans hn.symm)
  · intro w₂' hw₂
    have hsame₂ : ∀ k, k ≠ .ingressAllocation → w₂'.store.tbl k = w.store.tbl k := by
      intro k hk
      rw [hw₂, ho₂.others k hk, ho₁.others k hk]
    apply solo_mono _ (solo_again hsame₂)
    intro _ w₃ ho₃
    rw [hw₂] at ho₃
    exact settled_quiet (outcome_settled ho₂) hserved ho₃

end Converge

section Runs

def webService : Service where
  metadata := { name := "web" }
  spec := { selector := mapOf [("app", "web")], port := 80 }

def portInstance : Instance where
  metadata := { name := "web-1a2b", labels := mapOf [("app", "web")] }
  spec := { workload := "web", node := "a" }

def portNode : Node where
  metadata := { name := "a" }
  status := some { phase := .ready, nodeIndex := 1 }

def brokenWorld : World :=
  ⟨(((((Store.empty.put 7 .service webService revCreate).2.put 7 .inst portInstance revCreate).2.put 7 .node
    portNode revCreate).2.put 7 .ingressAllocation
    { metadata := { name := "web.web-1a2b" }, node := "a", port := 7 } revCreate).2.put 7 .ingressAllocation
    { metadata := { name := "old.web-1a2b" }, node := "a", port := 20000 } revCreate).2, 7 * second⟩

def portAt (w : World) (n : String) : Option Int :=
  (w.store.lookup .ingressAllocation n).map fun e => IngressAllocation.port e.1

def ingressPass (w : World) : Option (List String) × World := (ingressReconcile 20000).eval klited calm w

theorem broken_facts : NoOverflow 20000 (brokenWorld.store.listing .node) ∧
    (brokenWorld.store.listing .node).map (fun n => n.metadata.name) = ["a"] ∧
    (ingressWants 20000 brokenWorld.store).toList.length ≤ 32 := by
  unfold NoOverflow
  decide +kernel

theorem broken_disjoint : SlicesDisjoint 20000 brokenWorld.store := by
  intro a b ha hb _ _ hne
  have hname : ∀ n, Holds brokenWorld.store .node n → n.metadata.name = "a" := by
    intro n hn
    have hin := List.mem_map_of_mem (f := fun n : Node => n.metadata.name) (mem_listing.mpr hn)
    rw [broken_facts.2.1] at hin
    simpa using hin
  exact absurd (holds_inj ha hb ((hname a ha).trans (hname b hb).symm)) hne

theorem broken_few : FewPairs 20000 brokenWorld.store :=
  fun _ => List.countP_le_length.trans broken_facts.2.2

theorem ingress_repair_broken : portAt (ingressPass brokenWorld).2 "web.web-1a2b" = some 20001 ∧
    portAt (ingressPass brokenWorld).2 "old.web-1a2b" = none ∧
    IngressRepaired 20000 brokenWorld.store (ingressPass brokenWorld).2.store ∧
    (ingressPass (ingressPass (ingressPass brokenWorld).2).2).2.store = (ingressPass (ingressPass brokenWorld).2).2.store := by
  refine ⟨by decide +kernel, by decide +kernel, ?_⟩
  obtain ⟨_, _, hrepaired, hagain⟩ := solo_eval _ _ calm calm_reliable
    (ingress_repair 20000 brokenWorld broken_facts.1)
  refine ⟨hrepaired, ?_⟩
  obtain ⟨_, _, _, _, hquiet⟩ := solo_eval _ _ calm calm_reliable
    (hagain broken_disjoint broken_few (ingressPass brokenWorld).2 rfl)
  obtain ⟨_, _, hsame⟩ := solo_eval _ _ calm calm_reliable
    (hquiet (ingressPass (ingressPass brokenWorld).2).2 rfl)
  exact hsame

end Runs

end Klite
