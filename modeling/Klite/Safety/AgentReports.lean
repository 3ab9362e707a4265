import Klite.System
import Klite.Xds.Accept

/-!
# What an agent can do to the other nodes (internal/server/agent.go)

Register and ReportStatus write an advertised address into a node and a status into an
instance. Both end up in every node's desired state.
-/

namespace Klite
open Lib

theorem isAgent_modelled (g : Call) (h : g.isAgent) : g.modelled := by
  cases g with
  | other p => cases h
  | _ => rfl

/- Every address that the call reports of an instance is empty or literal. -/
def Call.literal : Call → Prop
  | .reportStatus _ req => ∀ u ∈ req.instances, ∀ st, u.status = some st → EmptyOrAddr st.instanceIp
  | _ => True

/- The node's desired state is there and accepted. -/
def Accepts (s : Store) (n : String) : Prop :=
  ∃ built, (buildAll (inputsAt s))[n]? = some built ∧ ∀ version, ∃ snap, buildSnapshot n version built.net = .ok snap

section Writes

theorem advertiseIP_screened (addr : String) : EmptyOrAddr (advertiseIP addr) := by
  unfold advertiseIP
  cases hp : Netip.parseAddr addr with
  | none => exact Or.inl rfl
  | some ip =>
    dsimp only
    split
    · exact Or.inl rfl
    · exact Or.inr ⟨ip, hp⟩

theorem ip_effective (p : InstancePhase) (st : InstanceStatus) : (effectiveStatus p st).instanceIp = st.instanceIp := by
  unfold effectiveStatus
  split <;> rfl

variable {cfg : Config} {g : Call} {h : Log} {w : World}

theorem agent_edits_instance (ha : g.isAgent) (hlit : g.literal) {cur new : Instance}
    (hr : (rights cfg g).edit .inst h w cur new) : new.spec.node = cur.spec.node ∧ EmptyOrAddr new.ip := by
  cases g with
  | register p req => exact absurd hr id
  | reportStatus p req =>
    obtain ⟨-, u, hu, st, hst, -, -, -, rfl⟩ := hr
    refine ⟨rfl, ?_⟩
    show EmptyOrAddr (effectiveStatus cur.phase st).instanceIp
    rw [ip_effective]
    exact hlit u hu st hst
  | _ => cases ha

theorem agent_edits_node (ha : g.isAgent) {cur new : Node} (hr : (rights cfg g).edit .node h w cur new)
    (hcur : EmptyOrAddr cur.getStatus.advertiseAddress) : EmptyOrAddr new.getStatus.advertiseAddress := by
  have hkeep : ∀ addr, EmptyOrAddr (if advertiseIP addr = "" then cur.getStatus.advertiseAddress else advertiseIP addr) := by
    intro addr
    split
    · exact hcur
    · exact advertiseIP_screened addr
  cases g with
  | register p req =>
    obtain ⟨-, ⟨idx, unix, addr, rfl, -, -⟩ | ⟨rfl, -⟩⟩ := hr
    · exact hkeep addr
    · exact hcur
  | reportStatus p req =>
    obtain ⟨-, ⟨unix, advertise, rfl⟩ | ⟨i, -, -, rfl⟩ | ⟨rfl, -⟩⟩ := hr
    · exact hkeep advertise
    · exact hcur
    · exact hcur
  | _ => cases ha

theorem agent_edits_kind (ha : g.isAgent) {k : Kind} {cur new : k.Obj} (hr : (rights cfg g).edit k h w cur new) :
    k = .node ∨ k = .inst := by
  cases g with
  | register p req => cases k <;> first | exact Or.inl rfl | exact absurd hr id
  | reportStatus p req => cases k <;> first | exact Or.inl rfl | exact Or.inr rfl | exact absurd hr id
  | _ => cases ha

theorem agent_creates_nothing (ha : g.isAgent) {k : Kind} {o : k.Obj} : ¬ (rights cfg g).create k h w o := by
  cases g with
  | register p req => exact id
  | reportStatus p req => exact id
  | _ => cases ha

theorem agent_removes_nothing (ha : g.isAgent) {k : Kind} {o : k.Obj} : ¬ (rights cfg g).remove k h w o := by
  cases g with
  | register p req => exact id
  | reportStatus p req => exact id
  | _ => cases ha

end Writes

/- What the agents leave of a store: other kinds as they were, the same nodes and instances on
the same nodes, and addresses that are empty or literal. -/
structure Spared (s₀ s : Store) : Prop where
  others : ∀ k, k ≠ .node → k ≠ .inst → s.tbl k = s₀.tbl k
  nodes : ∀ n, (s.lookup .node n).isSome = (s₀.lookup .node n).isSome
  bound : ∀ n, (s.lookup .inst n).map (fun e => Instance.spec e.1 |>.node) =
    (s₀.lookup .inst n).map fun e => Instance.spec e.1 |>.node
  addresses : ∀ n : Node, Holds s .node n → EmptyOrAddr n.getStatus.advertiseAddress
  instances : ∀ i : Instance, Holds s .inst i → EmptyOrAddr i.ip

section Run
variable {cfg : Config} {s₀ : Store}

theorem spared_change {g : Call} {h : Log} {w : World} {op : Op} {s' : Store} (ha : g.isAgent) (hlit : g.literal)
    (hs : Spared s₀ w.store) (hc : Change (rights cfg g) h w op s') : Spared s₀ s' where
  others := by
    intro k hnode hinst
    rw [← hs.others k hnode hinst]
    cases hc with
    | same => rfl
    | create k' o hv hn hr => exact absurd hr (agent_creates_nothing ha)
    | edit k' cur o r hv hl hr =>
      have hne : k ≠ k' := by
        rintro rfl
        rcases agent_edits_kind ha hr with rfl | rfl
        · exact hnode rfl
        · exact hinst rfl
      exact Function.update_of_ne hne _ _
    | remove op k' n cur r hop hl hr => exact absurd hr (agent_removes_nothing ha)
  nodes := by
    intro n
    rw [← hs.nodes n]
    rcases change_record hc .node n with he | ⟨o, -, -, hr, -⟩ | ⟨cur, r, o, -, hl, hr, -, hp⟩ | ⟨cur, r, -, -, hr, -⟩
    · rw [he]
    · exact absurd hr (agent_creates_nothing ha)
    · rw [hp, hl]
      rfl
    · exact absurd hr (agent_removes_nothing ha)
  bound := by
    intro n
    rw [← hs.bound n]
    rcases change_record hc .inst n with he | ⟨o, -, -, hr, -⟩ | ⟨cur, r, o, -, hl, hr, -, hp⟩ | ⟨cur, r, -, -, hr, -⟩
    · rw [he]
    · exact absurd hr (agent_creates_nothing ha)
    · rw [hp, hl]
      exact congrArg some (agent_edits_instance ha hlit hr).1
    · exact absurd hr (agent_removes_nothing ha)
  addresses := by
    intro n hn
    rcases change_holds hc hn with hold | ⟨o, -, -, hr, -⟩ | ⟨cur, o, -, hcur, hr, -, rfl⟩
    · exact hs.addresses n hold
    · exact absurd hr (agent_creates_nothing ha)
    · have hnew : EmptyOrAddr (Node.getStatus o).advertiseAddress := agent_edits_node ha hr (hs.addresses cur hcur)
      exact hnew
  instances := by
    intro i hi
    rcases change_holds hc hi with hold | ⟨o, -, -, hr, -⟩ | ⟨cur, o, -, hcur, hr, -, rfl⟩
    · exact hs.instances i hold
    · exact absurd hr (agent_creates_nothing ha)
    · exact (agent_edits_instance ha hlit hr).2

/- Only agents call, and what they report is literal. -/
def AgentsOnly : Step → Prop := Admits fun g => g.isAgent ∧ g.literal

structure ReportRun (cfg : Config) (s₀ : Store) (s : Klited) : Prop where
  sound : Sound cfg s
  running : Running (fun g => g.isAgent ∧ g.literal) s
  spared : Spared s₀ s.world.store

theorem reportRun_next {s : Klited} {l : Step} (hs : ReportRun cfg s₀ s) (hl : AgentsOnly l) :
    ReportRun cfg s₀ (s.next (body cfg) l) := by
  refine ⟨sound_next l hs.sound, running_next hs.running hl, ?_⟩
  rcases next_store hs.sound hs.running (fun g hg => isAgent_modelled g hg.1) hl with
    he | ⟨t, c, th, op, -, -, hA, -, -, hch⟩
  · rw [he]
    exact hs.spared
  · exact spared_change hA.1 hA.2 hs.spared hch

theorem spared_run (w : World) (hs : (listingsAt w.store).Screened) (ls : List Step)
    (hrun : Along (body cfg) (fun _ => AgentsOnly) (start w) ls) :
    Spared w.store ((start w).run (body cfg) ls).world.store := by
  have hstart : ReportRun cfg w.store (start w) := by
    refine ⟨sound_start w, fun th hth => (by cases hth), ?_⟩
    exact ⟨fun _ _ _ => rfl, fun _ => rfl, fun _ => rfl, fun n hn => hs.nodes n (mem_listing.mpr hn),
      fun i hi => hs.instances i (mem_listing.mpr hi)⟩
  exact (run_invariant (body cfg) (ReportRun cfg w.store) (fun _ => AgentsOnly) (fun _ _ h hl => reportRun_next h hl)
    (start w) ls hstart hrun).spared

end Run

section Accepted
variable {s₀ s : Store}

theorem spared_screened (hs : (listingsAt s₀).Screened) (h : Spared s₀ s) : (listingsAt s).Screened := by
  have hsvc : s.listing .service = s₀.listing .service := listing_of_tbl (h.others _ (by decide) (by decide))
  have hing : s.listing .ingressAllocation = s₀.listing .ingressAllocation :=
    listing_of_tbl (h.others _ (by decide) (by decide))
  refine ⟨?_, fun i hi => h.instances i (mem_listing.mp hi), fun n hn => h.addresses n (mem_listing.mp hn), ?_, ?_⟩
  · show ∀ svc ∈ s.listing .service, _
    rw [hsvc]
    exact hs.services
  · show ∀ a ∈ s.listing .ingressAllocation, _
    rw [hing]
    exact hs.ports
  · show ∀ a ∈ s.listing .ingressAllocation, ∀ a' ∈ s.listing .ingressAllocation, _
    rw [hing]
    exact hs.distinct

theorem spared_services (h : Spared s₀ s) (n : String) :
    (buildNet (inputsAt s) n).services = (buildNet (inputsAt s₀) n).services := by
  have hsvc : s.listing .service = s₀.listing .service := listing_of_tbl (h.others _ (by decide) (by decide))
  have hvip : s.listing .vipAllocation = s₀.listing .vipAllocation := listing_of_tbl (h.others _ (by decide) (by decide))
  unfold buildNet listedServices inputsAt inputsOf
  rw [hsvc, hvip]

theorem spared_nodes (h : Spared s₀ s) {n : String} (hn : n ∈ (inputsAt s₀).nodes) : n ∈ (inputsAt s).nodes := by
  show n ∈ (listingsAt s).inputs.nodes
  rcases mem_nodes.mp (show n ∈ (listingsAt s₀).inputs.nodes from hn) with ⟨node, hm, rfl⟩ | ⟨i, hm, rfl, hne⟩
  · have hsome := h.nodes node.metadata.name
    have hold : s₀.lookup .node node.metadata.name = some (node, node.metadata.resourceVersion) := mem_listing.mp hm
    rw [hold] at hsome
    obtain ⟨⟨node', r⟩, hl⟩ := Option.isSome_iff_exists.mp hsome
    exact mem_nodes.mpr (Or.inl ⟨node', mem_listing.mpr (holds_of_lookup hl), (lookup_some hl).1⟩)
  · have hmap := h.bound i.metadata.name
    have hold : s₀.lookup .inst i.metadata.name = some (i, i.metadata.resourceVersion) := mem_listing.mp hm
    rw [hold] at hmap
    obtain ⟨⟨i', r⟩, hl, hnode⟩ := Option.map_eq_some_iff.mp hmap
    exact mem_nodes.mpr (Or.inr ⟨i', mem_listing.mpr (holds_of_lookup hl), hnode, hne⟩)

theorem accepted_of_spared (hs : (listingsAt s₀).Screened) (h : Spared s₀ s) {n : String}
    (hn : n ∈ (inputsAt s₀).nodes) (hacc : Accepts s₀ n) : Accepts s n := by
  obtain ⟨built, hb, hok⟩ := hacc
  obtain ⟨snap, hsnap⟩ := hok ""
  rw [buildAll_net hb] at hsnap
  have hvips : ∀ svc ∈ (buildNet (listingsAt s).inputs n).services, IsAddr svc.vip := by
    intro svc hm
    rw [listingsAt_inputs, spared_services h n] at hm
    exact ((buildSnapshot_ok.mp hsnap).1.services svc hm).vip
  have hd := listingsAt_distinct s
  have hscreened := spared_screened hs h
  refine ⟨_, buildAll_get (spared_nodes h hn), fun version => ?_⟩
  have hgo := screened_accepted version hd hscreened hvips
  rw [listingsAt_inputs] at hgo
  exact ⟨_, hgo⟩

end Accepted

/-- Whatever agents register and report, in any interleaving, every node's desired state is
accepted as before, if the addresses they report of instances are empty or literal. -/
theorem reports_spare_nodes (cfg : Config) (w : World) (hs : (listingsAt w.store).Screened)
    (hacc : ∀ n ∈ (inputsAt w.store).nodes, Accepts w.store n) (ls : List Step)
    (hrun : Along (body cfg) (fun _ => AgentsOnly) (start w) ls) :
    ∀ n ∈ (inputsAt w.store).nodes, Accepts ((start w).run (body cfg) ls).world.store n := by
  intro n hn
  exact accepted_of_spared hs (spared_run w hs ls hrun) hn (hacc n hn)

section Runs

def quietWorld : World :=
  ⟨(((((Store.empty.put 7 .service
    { metadata := { name := "web" }
      spec := { selector := mapOf [("app", "web")], port := 80, targetPort := 8080 } } revCreate).2.put 7 .inst
    { metadata := { name := "web-1a2b", labels := mapOf [("app", "web")] }
      spec := { workload := "web", node := "b" } } revCreate).2.put 7 .node
    { metadata := { name := "a" }, status := some { phase := .ready, nodeIndex := 1 } } revCreate).2.put 7 .node
    { metadata := { name := "b" }, status := some { phase := .ready, nodeIndex := 2 } } revCreate).2.put 7 .vipAllocation
    { metadata := { name := "web.a" }, service := "web", node := "a", vip := "10.44.64.1" } revCreate).2, 7 * second⟩

def readyAt (ip : String) : Call :=
  .reportStatus (.node "b")
    { node := "b", instances := [{ name := "web-1a2b", uid := 2, status := some { phase := .ready, instanceIp := ip } }] }

def reportSteps (ip : String) : List Step :=
  [.spawn (readyAt ip), .step 0 {}, .step 0 {}, .step 0 {}, .step 0 {}, .step 0 {}]

def reportedStore (ip : String) : Store := (plainRun quietWorld (reportSteps ip)).world.store

theorem accepts_of_facts {s : Store} {n : String} (hn : n ∈ (inputsAt s).nodes)
    (hok : validateNet (buildNet (inputsAt s) n) = none) (hc : (newSnapshot n "" (buildNet (inputsAt s) n)).consistent) :
    Accepts s n :=
  ⟨_, buildAll_get hn, fun _ => ⟨_, buildSnapshot_ok.mpr ⟨validateNet_none.mp hok, hc, rfl⟩⟩⟩

theorem quiet_nodes : (inputsAt quietWorld.store).nodes = ["a", "b"] := by decide +kernel

theorem quiet_accepts : ∀ n ∈ (inputsAt quietWorld.store).nodes, Accepts quietWorld.store n := by
  intro n hn
  apply accepts_of_facts hn
  · rw [quiet_nodes] at hn
    simp only [List.mem_cons, List.not_mem_nil, or_false] at hn
    rcases hn with rfl | rfl <;> decide +kernel
  · rw [quiet_nodes] at hn
    simp only [List.mem_cons, List.not_mem_nil, or_false] at hn
    rcases hn with rfl | rfl <;> decide +kernel

theorem quiet_screened : (listingsAt quietWorld.store).Screened := by
  have hinst : (quietWorld.store.listing .inst).all (fun i => i.ip = "") := by decide +kernel
  have hnode : (quietWorld.store.listing .node).all (fun n => n.getStatus.advertiseAddress = "") := by decide +kernel
  have hing : quietWorld.store.listing .ingressAllocation = [] := by decide +kernel
  refine ⟨by decide +kernel, ?_, ?_, ?_, ?_⟩
  · exact fun i hi => Or.inl (of_decide_eq_true (List.all_eq_true.mp hinst i hi))
  · exact fun n hn => Or.inl (of_decide_eq_true (List.all_eq_true.mp hnode n hn))
  · show ∀ a ∈ quietWorld.store.listing .ingressAllocation, _
    rw [hing]
    exact fun a ha => absurd ha List.not_mem_nil
  · show ∀ a ∈ quietWorld.store.listing .ingressAllocation, _
    rw [hing]
    exact fun a ha => absurd ha List.not_mem_nil

/-- One report of node b makes node a's desired state unacceptable. -/
theorem report_wedges_others : (listingsAt quietWorld.store).Screened ∧
    (∀ n ∈ (inputsAt quietWorld.store).nodes, Accepts quietWorld.store n) ∧
    "a" ∈ (inputsAt (reportedStore "web.local")).nodes ∧ ¬ Accepts (reportedStore "web.local") "a" := by
  refine ⟨quiet_screened, quiet_accepts, by decide +kernel, ?_⟩
  rintro ⟨built, hb, hok⟩
  obtain ⟨snap, hsnap⟩ := hok ""
  rw [buildAll_net hb] at hsnap
  have hnone := validateNet_none.mpr (buildSnapshot_ok.mp hsnap).1
  have hsome : (validateNet (buildNet (inputsAt (reportedStore "web.local")) "a")).isSome := by decide +kernel
  rw [hnone] at hsome
  cases hsome

theorem reports_spare_nodes_ready : (reportedStore "10.44.128.5").listing .inst ≠ quietWorld.store.listing .inst ∧
    Accepts (reportedStore "10.44.128.5") "a" := by
  refine ⟨by decide +kernel, ?_⟩
  apply reports_spare_nodes plainConfig quietWorld quiet_screened quiet_accepts (reportSteps "10.44.128.5")
  · have hlit : (readyAt "10.44.128.5").literal := by
      intro u hu st hst
      rw [List.mem_singleton.mp hu] at hst
      cases hst
      exact Or.inr ⟨⟨false, 170688517, ""⟩, by decide⟩
    exact ⟨⟨rfl, hlit⟩, trivial, trivial, trivial, trivial, trivial, trivial⟩
  · rw [quiet_nodes]
    exact List.mem_cons_self

end Runs

end Klite
