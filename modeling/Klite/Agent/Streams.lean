import Klite.Safety.WatchUpdates
import Klite.Xds.Accept

/-!
# One agent's desired-state streams (watchLoop, watchOnce in internal/agent/agent.go)

Any number of klited replicas recompute from the store, each as far behind as it likes,
and the agent holds one stream at a time to one of them. No message tells which store
revision it was computed from. It is kept beside each message here, and nothing that the
code computes reads it.
-/

namespace Klite.Agent
open Lib

-- A replica. `basis` is the store revision its engine last computed from.
structure Upstream where
  hub : Hub := {}
  basis : ℕ := 0

-- A stream to a replica. `held` is the basis of the snapshot the server side has read.
structure Stream where
  upstream : ℕ
  watch : Watch
  held : ℕ := 0
  inbox : List (ℕ × NodeSnapshot) := []

/- `revs` holds what was stored at each revision, `current` is the stream the agent reads from,
and `applied` are the snapshots it has applied, newest first. -/
structure Cluster where
  revs : List Store := []
  upstreams : List Upstream := []
  streams : List Stream := []
  current : Option ℕ := none
  applied : List (ℕ × NodeSnapshot) := []

def Upstream.recompute (u : Upstream) (r : ℕ) (s : Store) : Upstream :=
  if u.hub.engine.ready ∧ r < u.basis then u else ⟨u.hub.store (buildAll (inputsAt s)), r⟩

def Stream.serve (st : Stream) (u : Upstream) (alive : Bool) : Stream × Upstream :=
  let next := st.watch.step u.hub alive
  ({ st with
      watch := next.1
      held := match st.watch.phase with
        | .reading _ => u.basis
        | _ => st.held
      inbox := match st.watch.phase with
        | .sending _ snap => if alive then st.inbox ++ [(st.held, snap)] else st.inbox
        | _ => st.inbox },
    { u with hub := next.2 })

namespace Cluster
variable (c : Cluster)

def commit (s : Store) : Cluster := { c with revs := c.revs ++ [s] }

def boot : Cluster := { c with upstreams := c.upstreams ++ [{}] }

def recompute (i r : ℕ) : Cluster :=
  match c.upstreams[i]?, c.revs[r]? with
  | some u, some s => { c with upstreams := c.upstreams.set i (u.recompute r s) }
  | _, _ => c

-- watchOnce dials again only after the stream before it has ended.
def connect (p : Principal) (req : WatchDesiredRequest) (i : ℕ) : Cluster :=
  match c.current, c.upstreams[i]?, watchDesired p req with
  | none, some _, .ok watch =>
    { c with streams := c.streams ++ [⟨i, watch, 0, []⟩], current := some c.streams.length }
  | _, _, _ => c

def serve (k : ℕ) (alive : Bool) : Cluster :=
  match c.streams[k]? with
  | some st =>
    match c.upstreams[st.upstream]? with
    | some u =>
      { c with
        streams := c.streams.set k (st.serve u alive).1
        upstreams := c.upstreams.set st.upstream (st.serve u alive).2 }
    | none => c
  | none => c

def drop : Cluster := { c with current := none }

def reading : Option Stream := c.current.bind fun k => c.streams[k]?

def incoming : Option (ℕ × NodeSnapshot) := c.reading.bind fun st => st.inbox.head?

def receive : Cluster :=
  match c.current, c.reading with
  | some k, some st =>
    match st.inbox with
    | m :: rest => { c with streams := c.streams.set k { st with inbox := rest }, applied := m :: c.applied }
    | [] => c
  | _, _ => c

end Cluster

variable {snap : NodeSnapshot}

section Build
variable {e : Engine} {built : Snapshots} {node : String}

theorem next_built (h : built[node]? = some snap) : (e.next built)[node]? = some snap := by
  unfold Engine.next
  rw [Table.get_fill_absent, h]
  intro v hm
  obtain ⟨p, hp, he⟩ := List.mem_map.mp hm
  have hnot := (List.mem_filter.mp hp).2
  simp only [Bool.and_eq_true, Bool.not_eq_true'] at hnot
  have hkey : p.1 = node := congrArg Prod.fst he
  have hcont : built.contains node = true := by
    rw [Std.ExtTreeMap.contains_eq_isSome_getElem?, h]
    rfl
  rw [hkey, hcont] at hnot
  cases hnot.1

theorem next_unbuilt (h : built[node]? = none) (hn : (e.next built)[node]? = some snap) : snap = {} := by
  rcases Table.get_fill_some hn with hm | hb
  · obtain ⟨p, -, he⟩ := List.mem_map.mp hm
    exact (congrArg Prod.snd he).symm
  · rw [h] at hb
    cases hb

theorem store_content : ((e.store built).current node).content = (built[node]?.getD {}).content := by
  have hget : (e.store built).nodes[node]? = (e.next built)[node]?.map _ := store_get
  cases hb : built[node]? with
  | some snap =>
    rw [next_built hb] at hget
    simp only [Engine.current, hget, Option.map_some, Option.getD_some, content_revision]
  | none =>
    cases hn : (e.next built)[node]? with
    | none =>
      rw [hn] at hget
      simp only [Engine.current, hget, Option.map_none, Option.getD_none]
    | some snap =>
      rw [hn] at hget
      obtain rfl := next_unbuilt hb hn
      simp only [Engine.current, hget, Option.map_some, Option.getD_some, Option.getD_none]
      rfl

theorem build_instances {s : Store} (hne : node ≠ "") :
    ((buildAll (inputsAt s))[node]?.getD {}).instances = nodeInstances (inputsAt s) node := by
  by_cases hn : node ∈ (inputsAt s).nodes
  · rw [buildAll_get hn]
    rfl
  · have hnone : (buildAll (inputsAt s))[node]? = none := by
      apply mapOf_none
      intro v hm
      obtain ⟨n, hn', he⟩ := List.mem_map.mp hm
      have hkey : n = node := congrArg Prod.fst he
      rw [hkey] at hn'
      exact hn hn'
    rw [hnone]
    symm
    apply List.filter_eq_nil_iff.mpr
    intro inst hm hnode
    apply hn
    rw [← listingsAt_inputs] at hm ⊢
    exact mem_nodes.mpr (Or.inr ⟨inst, mem_instances.mp hm, of_decide_eq_true hnode, hne⟩)

end Build

def Computed (c : Cluster) (node : String) (m : ℕ × NodeSnapshot) : Prop :=
  ∃ s, c.revs[m.1]? = some s ∧ m.2.content = ((buildAll (inputsAt s))[node]?.getD {}).content

/- What is kept beside the messages is true of them. -/
structure Honest (node : String) (c : Cluster) : Prop where
  idle : ∀ u ∈ c.upstreams, u.hub.engine.ready = false → u.basis = 0
  engines : ∀ u ∈ c.upstreams, u.hub.engine.ready → Computed c node (u.basis, u.hub.engine.current node)
  streams : ∀ st ∈ c.streams, st.upstream < c.upstreams.length ∧ st.watch.node = node ∧ node ≠ ""
  sending : ∀ st ∈ c.streams, ∀ id snap, st.watch.phase = .sending id snap → Computed c node (st.held, snap)
  inboxes : ∀ st ∈ c.streams, ∀ m ∈ st.inbox, Computed c node m
  applied : ∀ m ∈ c.applied, Computed c node m ∧ node ≠ ""

variable {u : Upstream}

section Honest
variable {node : String} {c : Cluster}

theorem honest_commit (s : Store) (h : Honest node c) : Honest node (c.commit s) := by
  have hmono : ∀ m, Computed c node m → Computed (c.commit s) node m := by
    rintro m ⟨s', hs', hm⟩
    refine ⟨s', ?_, hm⟩
    show (c.revs ++ [s])[m.1]? = some s'
    rw [List.getElem?_append_left (List.getElem?_eq_some_iff.mp hs').1, hs']
  exact {
    idle := h.idle
    engines := fun u hu hr => hmono _ (h.engines u hu hr)
    streams := h.streams
    sending := fun st hst id snap hp => hmono _ (h.sending st hst id snap hp)
    inboxes := fun st hst m hm => hmono _ (h.inboxes st hst m hm)
    applied := fun m hm => ⟨hmono _ (h.applied m hm).1, (h.applied m hm).2⟩ }

theorem honest_boot (h : Honest node c) : Honest node c.boot := by
  refine { h with idle := ?_, engines := ?_, streams := ?_ }
  · intro u hu hr
    rcases List.mem_append.mp hu with hu | hu
    · exact h.idle u hu hr
    · rw [List.mem_singleton.mp hu]
  · intro u hu hr
    rcases List.mem_append.mp hu with hu | hu
    · exact h.engines u hu hr
    · rw [List.mem_singleton.mp hu] at hr
      cases hr
  · intro st hst
    have hold := h.streams st hst
    refine ⟨?_, hold.2⟩
    simp only [Cluster.boot, List.length_append]
    omega

theorem honest_recompute (i r : ℕ) (h : Honest node c) : Honest node (c.recompute i r) := by
  unfold Cluster.recompute
  cases hu : c.upstreams[i]? with
  | none => exact h
  | some u =>
    cases hs : c.revs[r]? with
    | none => exact h
    | some s =>
      have hmem := List.mem_of_getElem? hu
      dsimp only
      refine { h with idle := ?_, engines := ?_, streams := ?_ }
      · intro u' hu' hr
        rcases List.mem_or_eq_of_mem_set hu' with hu' | rfl
        · exact h.idle u' hu' hr
        · unfold Upstream.recompute at hr ⊢
          split at hr
          · rename_i hold
            rw [if_pos hold]
            exact h.idle u hmem hr
          · cases hr
      · intro u' hu' hr
        rcases List.mem_or_eq_of_mem_set hu' with hu' | rfl
        · exact h.engines u' hu' hr
        · unfold Upstream.recompute at hr ⊢
          split at hr
          · rename_i hold
            rw [if_pos hold]
            exact h.engines u hmem hr
          · rename_i hnew
            rw [if_neg hnew]
            exact ⟨s, hs, store_content⟩
      · intro st hst
        rw [List.length_set]
        exact h.streams st hst

theorem watchDesired_ok {p : Principal} {req : WatchDesiredRequest} {watch : Watch} (h : watchDesired p req = .ok watch) :
    req.node ≠ "" ∧ watch = { node := req.node } := by
  unfold watchDesired at h
  split at h
  · cases h
  · rename_i hne
    split at h
    · cases h
    · exact ⟨hne, (Except.ok.inj h).symm⟩

theorem honest_connect (p : Principal) {req : WatchDesiredRequest} (i : ℕ) (hreq : req.node = node) (h : Honest node c) :
    Honest node (c.connect p req i) := by
  unfold Cluster.connect
  split
  · rename_i watch _ hu hw
    obtain ⟨hne, rfl⟩ := watchDesired_ok hw
    refine { h with streams := ?_, sending := ?_, inboxes := ?_ }
    · intro st hst
      rcases List.mem_append.mp hst with hst | hst
      · exact h.streams st hst
      · rw [List.mem_singleton.mp hst]
        exact ⟨(List.getElem?_eq_some_iff.mp hu).1, hreq, hreq ▸ hne⟩
    · intro st hst id snap hp
      rcases List.mem_append.mp hst with hst | hst
      · exact h.sending st hst id snap hp
      · rw [List.mem_singleton.mp hst] at hp
        cases hp
    · intro st hst m hm
      rcases List.mem_append.mp hst with hst | hst
      · exact h.inboxes st hst m hm
      · rw [List.mem_singleton.mp hst] at hm
        cases hm
  · exact h

theorem step_sending {w : Watch} {h : Hub} {alive : Bool} {id : ℕ} (hp : (w.step h alive).1.phase = .sending id snap) :
    w.phase = .reading id ∧ h.engine.snapshot w.node = some snap := by
  unfold Watch.step at hp
  cases hw : w.phase with
  | subscribing => simp [hw] at hp
  | reading id' =>
    simp only [hw] at hp
    split at hp
    · rename_i snap' hs
      split at hp
      · obtain ⟨rfl, rfl⟩ := WatchPhase.sending.inj hp
        exact ⟨rfl, hs⟩
      · cases hp
    · cases hp
  | sending id' snap' =>
    simp only [hw] at hp
    split at hp <;> cases hp
  | waiting id' =>
    simp only [hw] at hp
    split at hp
    · cases hp
    · split at hp
      · cases hp
      · rw [hw] at hp
        cases hp
  | closed =>
    simp only [hw] at hp
    cases hp

theorem step_node (w : Watch) (h : Hub) (alive : Bool) : (w.step h alive).1.node = w.node := by
  unfold Watch.step
  split
  · rfl
  · split
    · split <;> rfl
    · rfl
  · split <;> rfl
  · split
    · rfl
    · split <;> rfl
  · rfl

theorem serve_engine (st : Stream) (u : Upstream) (alive : Bool) :
    (st.serve u alive).2.hub.engine = u.hub.engine ∧ (st.serve u alive).2.basis = u.basis :=
  ⟨(step_slots u.hub st.watch alive).1, rfl⟩

theorem mem_serve_inbox {st : Stream} {alive : Bool} {m : ℕ × NodeSnapshot} (hm : m ∈ (st.serve u alive).1.inbox) :
    m ∈ st.inbox ∨ ∃ id snap, st.watch.phase = .sending id snap ∧ m = (st.held, snap) := by
  unfold Stream.serve at hm
  dsimp only at hm
  split at hm
  · rename_i id snap hp
    split at hm
    · rcases List.mem_append.mp hm with hm | hm
      · exact Or.inl hm
      · exact Or.inr ⟨id, snap, hp, List.mem_singleton.mp hm⟩
    · exact Or.inl hm
  · exact Or.inl hm

theorem honest_serve (k : ℕ) (alive : Bool) (h : Honest node c) : Honest node (c.serve k alive) := by
  unfold Cluster.serve
  cases hst : c.streams[k]? with
  | none => exact h
  | some st =>
    dsimp only
    cases hu : c.upstreams[st.upstream]? with
    | none => exact h
    | some u =>
      have hmem := List.mem_of_getElem? hst
      have hu' := List.mem_of_getElem? hu
      obtain ⟨heng, hbasis⟩ := serve_engine st u alive
      dsimp only
      refine ⟨?_, ?_, ?_, ?_, ?_, h.applied⟩
      · intro v hv hr
        rcases List.mem_or_eq_of_mem_set hv with hv | rfl
        · exact h.idle v hv hr
        · rw [heng] at hr
          rw [hbasis]
          exact h.idle u hu' hr
      · intro v hv hr
        rcases List.mem_or_eq_of_mem_set hv with hv | rfl
        · exact h.engines v hv hr
        · rw [heng] at hr ⊢
          exact h.engines u hu' hr
      · intro x hx
        rw [List.length_set]
        rcases List.mem_or_eq_of_mem_set hx with hx | rfl
        · exact h.streams x hx
        · have hold := h.streams st hmem
          exact ⟨hold.1, (step_node _ _ _).trans hold.2.1, hold.2.2⟩
      · intro x hx id snap hp
        rcases List.mem_or_eq_of_mem_set hx with hx | rfl
        · exact h.sending x hx id snap hp
        · obtain ⟨hread, hsnap⟩ := step_sending hp
          obtain ⟨rfl, hready⟩ := snapshot_current hsnap
          have hheld : (st.serve u alive).1.held = u.basis := by simp [Stream.serve, hread]
          rw [hheld, (h.streams st hmem).2.1]
          exact h.engines u hu' hready
      · intro x hx m hm
        rcases List.mem_or_eq_of_mem_set hx with hx | rfl
        · exact h.inboxes x hx m hm
        · rcases mem_serve_inbox hm with hm | ⟨id, snap, hp, rfl⟩
          · exact h.inboxes st hmem m hm
          · exact h.sending st hmem id snap hp

theorem receive_cases (c : Cluster) : (c.incoming = none ∧ c.receive = c) ∨
    ∃ k st m rest, c.current = some k ∧ c.streams[k]? = some st ∧ st.inbox = m :: rest ∧ c.incoming = some m ∧
      c.receive = { c with streams := c.streams.set k { st with inbox := rest }, applied := m :: c.applied } := by
  unfold Cluster.incoming Cluster.receive Cluster.reading
  cases hk : c.current with
  | none => exact Or.inl ⟨rfl, rfl⟩
  | some k =>
    cases hst : c.streams[k]? with
    | none => exact Or.inl ⟨by simp [hst], by simp [hst]⟩
    | some st =>
      cases hi : st.inbox with
      | nil => exact Or.inl ⟨by simp [hst, hi], by simp [hst, hi]⟩
      | cons m rest => exact Or.inr ⟨k, st, m, rest, rfl, hst, hi, by simp [hst, hi], by simp [hst, hi]⟩

theorem honest_receive (h : Honest node c) : Honest node c.receive := by
  rcases receive_cases c with ⟨-, he⟩ | ⟨k, st, m, rest, -, hst, hi, -, he⟩
  · rw [he]
    exact h
  · rw [he]
    have hmem := List.mem_of_getElem? hst
    refine { h with streams := ?_, sending := ?_, inboxes := ?_, applied := ?_ }
    · intro x hx
      rcases List.mem_or_eq_of_mem_set hx with hx | rfl
      · exact h.streams x hx
      · exact h.streams st hmem
    · intro x hx id snap hp
      rcases List.mem_or_eq_of_mem_set hx with hx | rfl
      · exact h.sending x hx id snap hp
      · exact h.sending st hmem id snap hp
    · intro x hx m' hm'
      rcases List.mem_or_eq_of_mem_set hx with hx | rfl
      · exact h.inboxes x hx m' hm'
      · exact h.inboxes st hmem m' (hi ▸ List.mem_cons_of_mem m hm')
    · intro m' hm'
      rcases List.mem_cons.mp hm' with rfl | hm'
      · exact ⟨h.inboxes st hmem m' (hi ▸ List.mem_cons_self), (h.streams st hmem).2.2⟩
      · exact h.applied m' hm'

end Honest

def Stream.upcoming (st : Stream) : List ℕ :=
  st.inbox.map (·.1) ++ match st.watch.phase with
    | .sending _ _ => [st.held]
    | _ => []

/- The revisions of what the agent has applied, of what is on its way, and of what the replica it
reads from would send next. -/
def Cluster.timeline (c : Cluster) : List ℕ :=
  (c.applied.map (·.1)).reverse ++ match c.reading with
    | some st => st.upcoming ++ (c.upstreams[st.upstream]?.map (·.basis)).toList
    | none => []

def InOrder (c : Cluster) : Prop := c.timeline.Pairwise (· ≤ ·)

section InOrder
variable {node : String} {c : Cluster}

theorem inOrder_applied (h : InOrder c) : (c.applied.map (·.1)).Pairwise (· ≥ ·) :=
  List.pairwise_reverse.mp (List.pairwise_append.mp h).1

theorem pairwise_last {l : List ℕ} {b b' : ℕ} (hb : b ≤ b') (h : (l ++ [b]).Pairwise (· ≤ ·)) :
    (l ++ [b']).Pairwise (· ≤ ·) := by
  rw [List.pairwise_append] at h ⊢
  refine ⟨h.1, List.pairwise_singleton _ _, ?_⟩
  intro x hx y hy
  rw [List.mem_singleton.mp hy]
  exact (h.2.2 x hx b List.mem_cons_self).trans hb

theorem timeline_reading {st : Stream} (hst : c.reading = some st) (hu : c.upstreams[st.upstream]? = some u) :
    c.timeline = (c.applied.map (·.1)).reverse ++ st.upcoming ++ [u.basis] := by
  simp [Cluster.timeline, hst, hu]

theorem timeline_none (h : c.reading = none) : c.timeline = (c.applied.map (·.1)).reverse := by
  simp [Cluster.timeline, h]

theorem inOrder_of {c' : Cluster} (hn : Honest node c) (h : InOrder c) (ha : c'.applied = c.applied)
    (hr : c'.reading = c.reading) (hu : ∀ st u, c.reading = some st → c.upstreams[st.upstream]? = some u →
      ∃ u', c'.upstreams[st.upstream]? = some u' ∧ u.basis ≤ u'.basis) : InOrder c' := by
  unfold InOrder at h ⊢
  cases hst : c.reading with
  | none =>
    rw [timeline_none hst] at h
    rw [timeline_none (hr.trans hst), ha]
    exact h
  | some st =>
    have hmem : st ∈ c.streams := by
      obtain ⟨k, -, hk⟩ := Option.bind_eq_some_iff.mp hst
      exact List.mem_of_getElem? hk
    obtain ⟨u, hu₀⟩ : ∃ u, c.upstreams[st.upstream]? = some u := ⟨_, List.getElem?_eq_getElem (hn.streams st hmem).1⟩
    obtain ⟨u', hu', hle⟩ := hu st u hst hu₀
    rw [timeline_reading hst hu₀] at h
    rw [timeline_reading (hr.trans hst) hu', ha]
    exact pairwise_last hle h

theorem inOrder_commit (s : Store) (h : InOrder c) : InOrder (c.commit s) := h

theorem inOrder_boot (hn : Honest node c) (h : InOrder c) : InOrder c.boot := by
  refine inOrder_of hn h rfl rfl ?_
  intro st u _ hu
  refine ⟨u, ?_, le_rfl⟩
  unfold Cluster.boot
  dsimp only
  rw [List.getElem?_append_left (List.getElem?_eq_some_iff.mp hu).1, hu]

theorem basis_recompute (r : ℕ) (s : Store) (hidle : u.hub.engine.ready = false → u.basis = 0) :
    u.basis ≤ (u.recompute r s).basis := by
  unfold Upstream.recompute
  split
  · exact le_rfl
  · rename_i hnot
    show u.basis ≤ r
    by_contra hlt
    cases hr : u.hub.engine.ready with
    | false =>
      rw [hidle hr] at hlt
      omega
    | true => exact hnot ⟨hr, by omega⟩

theorem inOrder_recompute (i r : ℕ) (hn : Honest node c) (h : InOrder c) : InOrder (c.recompute i r) := by
  unfold Cluster.recompute
  cases hi : c.upstreams[i]? with
  | none => exact h
  | some v =>
    cases hs : c.revs[r]? with
    | none => exact h
    | some s =>
      dsimp only
      refine inOrder_of hn h rfl rfl ?_
      intro st u _ hu
      dsimp only
      by_cases he : i = st.upstream
      · subst he
        obtain rfl : v = u := Option.mem_unique hi hu
        rw [List.getElem?_set_self (List.getElem?_eq_some_iff.mp hu).1]
        exact ⟨_, rfl, basis_recompute r s (hn.idle v (List.mem_of_getElem? hu))⟩
      · rw [List.getElem?_set_ne he]
        exact ⟨u, hu, le_rfl⟩

theorem inOrder_drop (h : InOrder c) : InOrder c.drop := by
  unfold InOrder at h ⊢
  rw [timeline_none rfl]
  exact (List.pairwise_append.mp h).1

theorem inOrder_connect (p : Principal) (req : WatchDesiredRequest) (i : ℕ)
    (hfresh : ∀ u, c.upstreams[i]? = some u → ∀ m ∈ c.applied, m.1 ≤ u.basis) (h : InOrder c) :
    InOrder (c.connect p req i) := by
  unfold Cluster.connect
  split
  · rename_i u watch hcur hu hw
    obtain ⟨-, rfl⟩ := watchDesired_ok hw
    unfold InOrder
    have hread : Cluster.reading { c with
        streams := c.streams ++ [⟨i, { node := req.node }, 0, []⟩], current := some c.streams.length } =
        some ⟨i, { node := req.node }, 0, []⟩ := by
      simp [Cluster.reading]
    rw [timeline_reading hread hu]
    have hup : Stream.upcoming ⟨i, { node := req.node }, 0, []⟩ = [] := rfl
    rw [hup, List.append_nil, List.pairwise_append]
    refine ⟨(List.pairwise_append.mp h).1, List.pairwise_singleton _ _, ?_⟩
    intro x hx y hy
    rw [List.mem_singleton.mp hy]
    obtain ⟨m, hm, rfl⟩ := List.mem_map.mp (List.mem_reverse.mp hx)
    exact hfresh u hu m hm
  · exact h

theorem upcoming_serve (st : Stream) (u : Upstream) (alive : Bool) : (st.serve u alive).1.upcoming.Sublist st.upcoming ∨
      (st.serve u alive).1.upcoming = st.upcoming ++ [u.basis] := by
  unfold Stream.serve Stream.upcoming Watch.step
  cases hp : st.watch.phase with
  | subscribing => exact Or.inl (by simp)
  | reading id =>
    cases hs : u.hub.engine.snapshot st.watch.node with
    | none => exact Or.inl (by simp)
    | some snap =>
      by_cases hrev : (snap.revision : Int) ≠ st.watch.lastSent
      · exact Or.inr (by simp [hrev])
      · exact Or.inl (by simp [hrev])
  | sending id snap =>
    cases alive with
    | false => exact Or.inl (by simp)
    | true => exact Or.inl (by simp)
  | waiting id =>
    cases alive with
    | false => exact Or.inl (by simp)
    | true =>
      cases hr : u.hub.receive id with
      | none => exact Or.inl (by simp [hr, hp])
      | some hub => exact Or.inl (by simp [hr])
  | closed => exact Or.inl (by simp [hp])

theorem inOrder_serve (k : ℕ) (alive : Bool) (hn : Honest node c) (h : InOrder c) : InOrder (c.serve k alive) := by
  unfold Cluster.serve
  cases hst : c.streams[k]? with
  | none => exact h
  | some st =>
    dsimp only
    cases hu : c.upstreams[st.upstream]? with
    | none => exact h
    | some u =>
      have hklt := (List.getElem?_eq_some_iff.mp hst).1
      have hult := (List.getElem?_eq_some_iff.mp hu).1
      dsimp only
      by_cases hk : c.current = some k
      · have hread : c.reading = some st := by simp [Cluster.reading, hk, hst]
        unfold InOrder at h ⊢
        rw [timeline_reading hread hu] at h
        have hread' : Cluster.reading { c with
            streams := c.streams.set k (st.serve u alive).1
            upstreams := c.upstreams.set st.upstream (st.serve u alive).2 } = some (st.serve u alive).1 := by
          simp [Cluster.reading, hk, hklt]
        rw [timeline_reading hread' (List.getElem?_set_self hult)]
        show ((c.applied.map (·.1)).reverse ++ (st.serve u alive).1.upcoming ++ [u.basis]).Pairwise (· ≤ ·)
        rcases upcoming_serve st u alive with hsub | happ
        · refine h.sublist ?_
          exact ((List.Sublist.refl _).append hsub).append (List.Sublist.refl _)
        · rw [happ, ← List.append_assoc, List.pairwise_append]
          refine ⟨h, List.pairwise_singleton _ _, ?_⟩
          intro x hx y hy
          rw [List.mem_singleton.mp hy]
          rcases List.mem_append.mp hx with hx | hx
          · exact (List.pairwise_append.mp h).2.2 x hx u.basis List.mem_cons_self
          · exact (List.mem_singleton.mp hx).le
      · -- Another stream of the same replica moves nothing the agent reads.
        refine inOrder_of hn h rfl ?_ ?_
        · unfold Cluster.reading
          dsimp only
          cases hc : c.current with
          | none => rfl
          | some j =>
            have hne : k ≠ j := fun he => hk (by rw [hc, he])
            simp [List.getElem?_set_ne hne]
        · intro st' u' _ hu'
          dsimp only
          by_cases he : st.upstream = st'.upstream
          · rw [← he] at hu' ⊢
            obtain rfl : u = u' := Option.mem_unique hu hu'
            rw [List.getElem?_set_self hult]
            exact ⟨_, rfl, le_rfl⟩
          · rw [List.getElem?_set_ne he]
            exact ⟨u', hu', le_rfl⟩

theorem inOrder_receive (hn : Honest node c) (h : InOrder c) : InOrder c.receive := by
  rcases receive_cases c with ⟨-, he⟩ | ⟨k, st, m, rest, hk, hst, hi, -, he⟩
  · rw [he]
    exact h
  · have hmem := List.mem_of_getElem? hst
    have hklt := (List.getElem?_eq_some_iff.mp hst).1
    obtain ⟨u, hu⟩ : ∃ u, c.upstreams[st.upstream]? = some u := ⟨_, List.getElem?_eq_getElem (hn.streams st hmem).1⟩
    have hread : c.reading = some st := by simp [Cluster.reading, hk, hst]
    rw [he]
    unfold InOrder at h ⊢
    rw [timeline_reading hread hu] at h
    have hread' : Cluster.reading { c with
        streams := c.streams.set k { st with inbox := rest }, applied := m :: c.applied } =
        some { st with inbox := rest } := by
      simp [Cluster.reading, hk, hklt]
    rw [timeline_reading hread' hu]
    -- The message moves from the front of what is upcoming to the end of what is applied.
    have hlist : ((m :: c.applied).map (·.1)).reverse ++ Stream.upcoming { st with inbox := rest } ++ [u.basis] =
        (c.applied.map (·.1)).reverse ++ st.upcoming ++ [u.basis] := by
      simp [Stream.upcoming, hi]
    rw [hlist]
    exact h

end InOrder

end Klite.Agent
