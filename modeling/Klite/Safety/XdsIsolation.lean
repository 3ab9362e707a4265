import Klite.Safety.XdsVersions
import Klite.Xds.Server

/-!
# What a node's certificate lets it read over xDS

A stream is bound to the certificate's node from its first message on, so it never
reads another node's snapshot. The unary Fetch methods are not bound: they answer
for whichever node the request names.
-/

namespace Klite
open Lib

section Names

theorem unnamed_not_listed (s : Store) : "" ∉ (inputsAt s).nodes := by
  intro h
  have hm := List.mem_dedup.mp ((List.mem_insertionSort _).mp h)
  rcases List.mem_append.mp hm with hnode | hinst
  · obtain ⟨o, ho, hn⟩ := List.mem_map.mp hnode
    have hv := (lookup_some (mem_listing.mp ho)).2.2.1
    rw [show (metaOf (k := .node) o).name = "" from hn] at hv
    cases hv
  · simp at hinst

theorem next_unnamed {e : Engine} (s : Store) (h : e.nodes[""]? = none) :
    (e.next (buildAll (inputsAt s)))[""]? = none := by
  rw [Option.eq_none_iff_forall_ne_some]
  intro snap hg
  rcases Table.get_fill_some hg with hm | hb
  · obtain ⟨p, hp, he⟩ := List.mem_map.mp hm
    have hget := Table.mem_toList.mp (List.mem_filter.mp hp).1
    rw [(Prod.mk.inj he).1, h] at hget
    cases hget
  · rcases Table.get_fill_some hb with hm | habs
    · obtain ⟨node, hnode, he⟩ := List.mem_map.mp hm
      rw [(Prod.mk.inj he).1] at hnode
      exact unnamed_not_listed s hnode
    · simp at habs

theorem after_unnamed (states : List Store) :
    (Replica.after states).engine.nodes[""]? = none ∧ (Replica.after states).cache[""]? = none := by
  induction states using List.reverseRecOn with
  | nil => simp [Replica.after]
  | append_singleton before s ih =>
    rw [after_append]
    have hnext := next_unnamed s ih.1
    constructor
    · show ((Replica.after before).engine.store (buildAll (inputsAt s))).nodes[""]? = none
      unfold Engine.store
      dsimp only
      rw [Std.ExtTreeMap.getElem?_map, hnext]
      rfl
    · rw [Option.eq_none_iff_forall_ne_some]
      intro c hc
      rcases cache_recompute hc with hold | ⟨hreb, -⟩
      · rw [ih.2] at hold
        cases hold
      · obtain ⟨snap, hg, -⟩ := hreb.change
        rw [hnext] at hg
        cases hg

def clusterState (states : List Store) : ClusterState where
  snapshot id := (Replica.after states).cache[id]?.map (·.snapshot)
  unnamed := by rw [(after_unnamed states).2]; rfl

end Names

section Streams
variable {ρ Resp : Type} {n : String}

def Pinned (n : String) (s : XdsStream ρ) : Prop :=
  s.gate = some ⟨n, s.first.isSome⟩ ∧ ∀ id, s.first = some id → id = n ∧ s.current = n

theorem gateRecv_ok {b : Bool} {id : String} {g : Option XdsBoundStream}
    (h : gateRecv (some ⟨n, b⟩) id = .ok g) : g = some ⟨n, true⟩ ∧ (id = n ∨ (id = "" ∧ b = true)) := by
  unfold gateRecv XdsBoundStream.recvMsg at h
  dsimp only at h
  split at h
  · rename_i hid
    obtain ⟨hid, rfl⟩ := hid
    exact ⟨(Except.ok.inj h).symm, Or.inr ⟨hid, rfl⟩⟩
  · split at h
    · cases h
    · split at h
      · cases h
      · rename_i hne
        exact ⟨(Except.ok.inj h).symm, Or.inl (not_not.mp hne)⟩

variable {cp : ControlPlane ρ Resp} {state state' : ClusterState} {s : XdsStream ρ}

theorem streamRecv_pinned (req : XdsRequest ρ) (hs : Pinned n s) (hn : state.snapshot n = state'.snapshot n) :
    streamRecv cp state req s = streamRecv cp state' req s ∧ Pinned n (streamRecv cp state req s).1 := by
  obtain ⟨hg, hf⟩ := hs
  unfold streamRecv
  cases hr : gateRecv s.gate req.nodeId with
  | error st => exact ⟨rfl, hg, hf⟩
  | ok g =>
    rw [hg] at hr
    obtain ⟨rfl, hid⟩ := gateRecv_ok hr
    -- Whichever message this is, the first one named the node.
    have hfirst : s.first.getD req.nodeId = n := by
      cases h1 : s.first with
      | none =>
        rw [h1] at hid
        exact hid.resolve_right fun h => by cases h.2
      | some id => exact (hf id h1).1
    have hcur : (if req.nodeId = "" then n else req.nodeId) = n := by
      split
      · rfl
      · rename_i hne
        exact hid.resolve_right fun h => hne h.1
    dsimp only
    rw [hfirst, hcur, hn]
    exact ⟨rfl, rfl, fun id h => ⟨(Option.some.inj h).symm, rfl⟩⟩

theorem streamChange_pinned (hs : Pinned n s) (hn : state.snapshot n = state'.snapshot n) :
    streamChange cp state s = streamChange cp state' s ∧ Pinned n (streamChange cp state s).1 := by
  unfold streamChange
  split
  · exact ⟨rfl, hs⟩
  · rename_i hasked
    obtain ⟨id, hid⟩ := Option.ne_none_iff_exists'.mp (mt Option.isNone_iff_eq_none.mpr hasked)
    rw [(hs.2 id hid).2, hn]
    exact ⟨rfl, hs.1, fun i hi => ⟨(hs.2 i hi).1, rfl⟩⟩

theorem onStream_pinned {f g : XdsStream ρ → XdsStream ρ × Option (XdsResponse Resp)}
    {streams : List (XdsStream ρ)} (t : ℕ) (hs : ∀ s ∈ streams, Pinned n s)
    (hfg : ∀ s, Pinned n s → f s = g s ∧ Pinned n (f s).1) :
    onStream f streams t = onStream g streams t ∧ ∀ s ∈ (onStream f streams t).1, Pinned n s := by
  unfold onStream
  cases ht : streams[t]? with
  | none => exact ⟨rfl, hs⟩
  | some s =>
    obtain ⟨he, hp⟩ := hfg s (hs s (List.mem_of_getElem? ht))
    dsimp only
    split
    · exact ⟨rfl, hs⟩
    · refine ⟨by rw [he], fun s' hm => ?_⟩
      rcases List.mem_or_eq_of_mem_set hm with hold | rfl
      · exact hs s' hold
      · exact hp

end Streams

section Caller
variable {ρ Resp : Type} {n : String} {c : Conn} (adminToken : String)

theorem fullMethod_xds (m : XdsMethod) : hasPrefix m.fullMethod xdsMethodPrefix := by
  cases m <;> simp [hasPrefix, XdsMethod.fullMethod, xdsMethodPrefix]

theorem fullMethod_ne (m : XdsMethod) : m.fullMethod ≠ registerMethod := by
  cases m <;> simp [XdsMethod.fullMethod, registerMethod]

theorem authorize_xds (hc : peerNode c = some n) (m : XdsMethod) :
    authorize adminToken c m.fullMethod = .ok (.node n) := by
  unfold authorize
  rw [principalOf_node adminToken c n hc]
  simp [fullMethod_xds, fullMethod_ne]

theorem streamGate_xds (hc : peerNode c = some n) (m : XdsMethod) :
    streamGate adminToken c m.fullMethod = .ok (some ⟨n, false⟩) := by
  unfold streamGate
  rw [authorize_xds adminToken hc]
  dsimp only [Except.map]
  rw [if_pos (fullMethod_xds m)]
  rfl

def KeepsTo (n : String) : XdsEvent ρ → Prop
  | .fetch m req => m.isUnary → req.nodeId = n ∨ req.nodeId = ""
  | _ => True

variable (cp : ControlPlane ρ Resp) {state state' : ClusterState}

theorem xdsStep_pinned (hc : peerNode c = some n) {streams : List (XdsStream ρ)} {ev : XdsEvent ρ}
    (hs : ∀ s ∈ streams, Pinned n s) (hn : state.snapshot n = state'.snapshot n) (hev : KeepsTo n ev) :
    xdsStep cp adminToken c state streams ev = xdsStep cp adminToken c state' streams ev ∧
      ∀ s ∈ (xdsStep cp adminToken c state streams ev).1, Pinned n s := by
  cases ev with
  | fetch m req =>
    refine ⟨?_, hs⟩
    dsimp only [xdsStep]
    split
    · rename_i hm
      have hsame : state.snapshot req.nodeId = state'.snapshot req.nodeId := by
        rcases hev hm with rfl | hnone
        · exact hn
        · rw [hnone, state.unnamed, state'.unnamed]
      unfold unaryCall
      rw [hsame]
    · rfl
  | connect m =>
    refine ⟨rfl, ?_⟩
    dsimp only [xdsStep]
    rw [streamGate_xds adminToken hc]
    split
    · exact hs
    · intro s hm
      rcases List.mem_append.mp hm with hold | hnew
      · exact hs s hold
      · obtain rfl := List.mem_singleton.mp hnew
        exact ⟨rfl, nofun⟩
  | send t req => exact onStream_pinned t hs fun s h => streamRecv_pinned req h hn
  | change t => exact onStream_pinned t hs fun s h => streamChange_pinned h hn

theorem responses_pinned (hc : peerNode c = some n) {states states' : ℕ → ClusterState}
    (hn : ∀ k, (states k).snapshot n = (states' k).snapshot n) (evs : List (XdsEvent ρ))
    (streams : List (XdsStream ρ)) (k : ℕ) (hs : ∀ s ∈ streams, Pinned n s) (hev : ∀ ev ∈ evs, KeepsTo n ev) :
    responses cp adminToken c states streams k evs = responses cp adminToken c states' streams k evs := by
  induction evs generalizing streams k with
  | nil => rfl
  | cons ev evs ih =>
    obtain ⟨he, hp⟩ := xdsStep_pinned adminToken cp hc hs (hn k) (hev ev List.mem_cons_self)
    unfold responses
    dsimp only
    rw [← he, ih _ _ hp fun ev hm => hev ev (List.mem_cons_of_mem _ hm)]

end Caller

/- Whatever the control plane does, what the caller receives does not depend on the
snapshots of nodes other than `n`. -/
def Isolated {ρ : Type} (adminToken : String) (c : Conn) (n : String) (evs : List (XdsEvent ρ)) : Prop :=
  ∀ (Resp : Type) (cp : ControlPlane ρ Resp) (states states' : ℕ → ClusterState),
    (∀ k, (states k).snapshot n = (states' k).snapshot n) →
    responses cp adminToken c states [] 0 evs = responses cp adminToken c states' [] 0 evs

section Reads
variable {ρ : Type}

def echo : ControlPlane ρ (Option XdsSnapshot) where
  fetch _ _ snap := snap
  answer _ _ := none

def ClusterState.empty : ClusterState := ⟨fun _ => none, rfl⟩

def ClusterState.only (id : String) (h : id ≠ "") (snap : XdsSnapshot) : ClusterState where
  snapshot i := if i = id then some snap else none
  unnamed := if_neg (Ne.symm h)

theorem fetch_reads {adminToken n id : String} {c : Conn} {snap : XdsSnapshot} (hc : peerNode c = some n)
    (hid : id ≠ "") (evs : List (XdsEvent ρ)) (streams streams' : List (XdsStream ρ)) (k : ℕ)
    (h : responses echo adminToken c (fun _ => .empty) streams k evs =
      responses echo adminToken c (fun _ => .only id hid snap) streams' k evs)
    {m : XdsMethod} {req : XdsRequest ρ} (hm : .fetch m req ∈ evs) (hu : m.isUnary) : req.nodeId ≠ id := by
  induction evs generalizing streams streams' k with
  | nil => cases hm
  | cons ev evs ih =>
    unfold responses at h
    dsimp only at h
    obtain ⟨hr, htl⟩ := List.cons.inj h
    rcases List.mem_cons.mp hm with rfl | hm
    · rintro rfl
      dsimp only [xdsStep, unaryCall] at hr
      rw [authorize_xds adminToken hc, if_pos hu, if_pos hu] at hr
      simp [echo, ClusterState.empty, ClusterState.only] at hr
    · exact ih _ _ _ htl hm

end Reads

/-- A caller with the certificate of node `n` learns nothing of other nodes' snapshots, if and
only if its Fetch requests name `n` or no node. -/
theorem xds_isolated_iff {ρ : Type} (adminToken n : String) (c : Conn) (hc : peerNode c = some n)
    (evs : List (XdsEvent ρ)) : Isolated adminToken c n evs ↔
      ∀ m req, .fetch m req ∈ evs → m.isUnary → req.nodeId = n ∨ req.nodeId = "" := by
  constructor
  · intro h m req hm hu
    by_contra hne
    obtain ⟨hn, hid⟩ := not_or.mp hne
    have hsame := h _ echo (fun _ => .empty) (fun _ => .only req.nodeId hid ⟨"", ∅, ∅, ∅⟩) fun _ =>
      (if_neg (Ne.symm hn)).symm
    exact fetch_reads hc hid evs [] [] 0 hsame hm hu rfl
  · intro h Resp cp states states' hn
    refine responses_pinned adminToken cp hc hn evs [] 0 nofun fun ev hm => ?_
    cases ev with
    | fetch m req => exact h m req hm
    | _ => trivial

section Crossing

def certA : Conn := { certCN := some "klite:node:a" }

-- Envoy's own use of the API: one aggregated stream that names the node once.
def envoySession : List (XdsEvent Unit) :=
  [.connect .streamAggregatedResources, .send 0 ⟨"a", ()⟩, .send 0 ⟨"", ()⟩, .change 0,
    .fetch .fetchListeners ⟨"a", ()⟩]

theorem xds_isolated_iff_envoy : peerNode certA = some "a" ∧ Isolated "" certA "a" envoySession := by
  refine ⟨by decide, (xds_isolated_iff "" "a" certA (by decide) envoySession).mpr ?_⟩
  intro m req hm _
  simp only [envoySession, List.mem_cons, XdsEvent.fetch.injEq, reduceCtorEq, List.not_mem_nil, or_false,
    false_or] at hm
  exact Or.inl (by rw [hm.2])

def twoNodeStore (vip : String) : Store :=
  ((openStore.put 7 .node { metadata := { name := "b" } } revCreate).2.put 7 .vipAllocation
    { metadata := { name := "api.b" }, service := "api", node := "b", vip := vip } revCreate).2

def crossing : List (XdsEvent Unit) := [.fetch .fetchListeners ⟨"b", ()⟩]

/-- Node a's certificate reads node b's listeners. -/
theorem fetch_crosses : peerNode certA = some "a" ∧ ¬ Isolated "" certA "a" crossing := by
  refine ⟨by decide, fun h => ?_⟩
  have hresp := h _ echo (fun _ => clusterState [twoNodeStore "10.45.1.1"])
    (fun _ => clusterState [twoNodeStore "10.45.1.2"]) fun _ => by decide +kernel
  have hb : (clusterState [twoNodeStore "10.45.1.1"]).snapshot "b" =
      (clusterState [twoNodeStore "10.45.1.2"]).snapshot "b" := by
    dsimp only [crossing, responses, xdsStep, unaryCall] at hresp
    rw [authorize_xds "" (n := "a") (by decide)] at hresp
    simpa [echo, XdsMethod.isUnary] using hresp
  revert hb
  decide +kernel

end Crossing

end Klite
