import Klite.Agent.ReconcileSpec

/-!
# An agent and the order of the store's revisions

The server side of a stream never looks at the revision the client resumes from, and the
numbers are each replica's own.
-/

namespace Klite.Agent
open Lib

abbrev Process (me : Identity) := Sys (host me) Pass (Except String (List String))

abbrev Beat (me : Identity) := Label (host me) Pass

def body (me : Identity) (p : Pass) : Code (Except String (List String)) := turn me.node p

def start (me : Identity) (d : Docker) (now : Int) : Process me := ⟨{ docker := d, now := now }, []⟩

-- There is one reconcileLoop: a pass begins when none is at work.
def OneLoop {me : Identity} (s : Process me) : Beat me → Prop
  | .spawn _ => ∀ t th op, ¬ s.Calls t th op
  | _ => True

-- The agent dials a replica that has computed from every revision the agent has applied.
def DialsForward {me : Identity} (s : Process me) : Beat me → Prop
  | .move (.connect i) => ∀ u, s.world.cluster.upstreams[i]? = some u → ∀ m ∈ s.world.cluster.applied, m.1 ≤ u.basis
  | _ => True

/- While a pass is at work, a snapshot that arrives brings no instance with a running container
that the pass's copy of the desired map does not claim. -/
def ArrivesInStep {me : Identity} (s : Process me) : Beat me → Prop
  | .move .receive => ∀ t th op D m, s.Calls t th op → copied th.hist = some D → s.world.cluster.incoming = some m →
      ∀ inst ∈ m.2.instances, ∀ (id : ℕ) (b : Box), s.world.docker.boxes[id]? = some b → b.running →
      b.labels = (boxOf inst).labels → Claimed D b.labels
  | _ => True

def Stored (s : Store) (node : String) (x : String × Uid × String) : Prop :=
  ∃ o : Instance, Holds s .inst o ∧ o.metadata.name = x.1 ∧ o.metadata.uid = x.2.1 ∧ o.spec.templateHash = x.2.2 ∧
    o.spec.node = node

/- The labels of an instance that was in an applied snapshot and has been stored and bound to the
node at every revision since. -/
def Kept (c : Cluster) (node : String) (x : String × Uid × String) : Prop :=
  ∃ m ∈ c.applied, (∃ inst ∈ m.2.instances, (boxOf inst).labels = x) ∧ ∀ s ∈ c.revs.drop m.1, Stored s node x

variable {x : String × Uid × String}

section Desired
variable {c : Cluster} {node : String}

def wanted (c : Cluster) : Desired := desiredOf ((c.applied.head?.map fun m => m.2.instances).getD [])

theorem desiredOf_get {insts : List Instance} (hn : (insts.map (·.metadata.name)).Nodup) {inst : Instance}
    (h : inst ∈ insts) : (desiredOf insts).map[inst.metadata.name]? = some inst := by
  show (mapOf (insts.map fun inst => (inst.metadata.name, inst)))[inst.metadata.name]? = some inst
  rw [mapOf_get]
  · exact List.mem_map_of_mem (f := fun inst : Instance => (inst.metadata.name, inst)) h
  · rw [List.map_map]
    exact hn

theorem computed_instances {m : ℕ × NodeSnapshot} {s : Store} (hne : node ≠ "") (hs : c.revs[m.1]? = some s)
    (hm : Computed c node m) : m.2.instances = nodeInstances (inputsAt s) node := by
  obtain ⟨s', hs', hcont⟩ := hm
  obtain rfl : s = s' := Option.mem_unique hs hs'
  rw [← build_instances hne]
  exact congrArg Prod.fst hcont

theorem wanted_kept (hn : Honest node c) (ho : InOrder c) (hk : Kept c node x) : Claimed (wanted c) x := by
  obtain ⟨m, hm, -, hst⟩ := hk
  obtain ⟨last, rest, ha⟩ : ∃ last rest, c.applied = last :: rest := List.exists_cons_of_ne_nil (List.ne_nil_of_mem hm)
  have hlast : last ∈ c.applied := ha ▸ List.mem_cons_self
  have hle : m.1 ≤ last.1 := by
    have hp := inOrder_applied ho
    rw [ha, List.map_cons, List.pairwise_cons] at hp
    rw [ha] at hm
    rcases List.mem_cons.mp hm with rfl | hm
    · exact le_rfl
    · exact hp.1 m.1 (List.mem_map_of_mem hm)
  obtain ⟨hcomp, hne⟩ := hn.applied last hlast
  obtain ⟨s, hs, -⟩ := id hcomp
  have hdrop : s ∈ c.revs.drop m.1 := by
    apply List.mem_of_getElem? (i := last.1 - m.1)
    rw [List.getElem?_drop, Nat.add_sub_cancel' hle, hs]
  obtain ⟨o, hh, hname, huid, hhash, hnode⟩ := hst s hdrop
  have hinst := computed_instances hne hs hcomp
  have hnodup : (last.2.instances.map (·.metadata.name)).Nodup := by
    rw [hinst]
    exact (List.filter_sublist.map _).nodup (instances_nodup (listingsAt_distinct s))
  have hmem : o ∈ last.2.instances := by
    rw [hinst]
    apply List.mem_filter.mpr
    refine ⟨?_, by simpa using hnode⟩
    exact mem_instances (l := listingsAt s).mpr (mem_listing.mpr hh)
  have hw : wanted c = desiredOf last.2.instances := by
    unfold wanted
    rw [ha]
    rfl
  refine ⟨o, ?_, huid, hhash⟩
  rw [hw, ← hname]
  exact desiredOf_get hnodup hmem

end Desired

/- What is true of a pass at work: its copy claims every running container that is kept, and every
container is one it listed or made. -/
structure PassOk (node : String) (w : World) (h : Log) : Prop where
  covered : ∀ D, copied h = some D → ∀ (id : ℕ) (b : Box), w.docker.boxes[id]? = some b → b.running →
    Kept w.cluster node b.labels → Claimed D b.labels
  seen : ∀ l, listed h = some l → ∀ (id : ℕ) (b : Box), w.docker.boxes[id]? = some b →
    ∀ ri ∈ l, ri.containerID = id → ri.labels = b.labels ∧ (b.running → ri.running)
  known : ∀ l, listed h = some l → ∀ (id : ℕ) (b : Box), w.docker.boxes[id]? = some b →
    (∃ ri ∈ l, ri.containerID = id) ∨ ∃ m ∈ made h, (boxOf m.1).labels = b.labels
  older : ∀ l, listed h = some l → ∀ ri ∈ l, ri.containerID < w.docker.nextId ∧
    ∀ inst, (inst, some ri.containerID) ∉ made h
  owned : ∀ m ∈ made h, ∃ D, copied h = some D ∧ D.map[m.1.metadata.name]? = some m.1

section Pass
variable {me : Identity} {node : String} {w w' : World} {h h' : Log}

theorem passOk_nil (node : String) (w : World) : PassOk node w [] where
  covered := fun _ hD => nomatch hD
  seen := fun _ hl => nomatch hl
  known := fun _ hl => nomatch hl
  older := fun _ hl => nomatch hl
  owned := fun _ hm => absurd hm List.not_mem_nil

theorem passOk_shrinks (hs : Same h h') (hd : Shrinks w.docker w'.docker)
    (hk : ∀ D, copied h = some D → ∀ (id : ℕ) (b : Box), w.docker.boxes[id]? = some b → b.running →
      Kept w'.cluster node b.labels → Kept w.cluster node b.labels ∨ Claimed D b.labels)
    (hp : PassOk node w h) : PassOk node w' h' where
  covered := by
    intro D hD id b' hb' hr hkept
    rw [hs.1] at hD
    obtain ⟨b, hb, hl, hrun⟩ := hd.back id b' hb'
    rw [← hl] at hkept ⊢
    rcases hk D hD id b hb (hrun hr) hkept with hkept | hc
    · exact hp.covered D hD id b hb (hrun hr) hkept
    · exact hc
  seen := by
    intro l hl id b' hb' ri hri hid
    rw [hs.2.1] at hl
    obtain ⟨b, hb, hlab, hrun⟩ := hd.back id b' hb'
    have hold := hp.seen l hl id b hb ri hri hid
    exact ⟨hold.1.trans hlab, fun hr => hold.2 (hrun hr)⟩
  known := by
    intro l hl id b' hb'
    rw [hs.2.1] at hl
    rw [hs.2.2]
    obtain ⟨b, hb, hlab, -⟩ := hd.back id b' hb'
    rw [← hlab]
    exact hp.known l hl id b hb
  older := by
    intro l hl ri hri
    rw [hs.2.1] at hl
    rw [hs.2.2]
    have hold := hp.older l hl ri hri
    have hle := hd.nextId
    exact ⟨by omega, hold.2⟩
  owned := by
    rw [hs.1, hs.2.2]
    exact hp.owned

theorem passOk_docker (hs : Same h h') (hd : Shrinks w.docker w'.docker) (hc : w'.cluster = w.cluster)
    (hp : PassOk node w h) : PassOk node w' h' :=
  passOk_shrinks hs hd (fun _ _ _ _ _ _ hk => Or.inl (hc ▸ hk)) hp

theorem passOk_copy (hw : w.mem.desired = wanted w.cluster) (hn : Honest node w.cluster) (ho : InOrder w.cluster)
    (hm : made h = []) (c : Choice) (hp : PassOk node w h) :
    PassOk node w ((host me).event c .snapshotDesired w :: h) := by
  have hmade : made ((host me).event c .snapshotDesired w :: h) = made h := rfl
  refine { hp with covered := ?_, owned := ?_ }
  · intro D hD id b _ _ hk
    obtain rfl : w.mem.desired = D := Option.some.inj hD
    rw [hw]
    exact wanted_kept hn ho hk
  · rw [hmade, hm]
    exact fun _ hin => absurd hin List.not_mem_nil

theorem passOk_list (hm : made h = []) (c : Choice) (hp : PassOk node w h) :
    PassOk node w ((host me).event c .containerList w :: h) := by
  cases hf : c.fails with
  | true =>
    have hres : (exec c .containerList w).1 = .error c.text := by simp [exec, hf]
    have hnone : listedBy ((host me).event c .containerList w) = none := by
      unfold Machine.event
      simp only [hres]
      rfl
    exact passOk_docker (same_event rfl hnone rfl) (shrinks_refl _) rfl hp
  | false =>
    have hlist : listedBy ((host me).event c .containerList w) = some w.docker.list := by
      have hres : (exec c .containerList w).1 = .ok w.docker.list := by simp [exec, hf]
      unfold Machine.event
      simp only [hres]
      rfl
    have hlisted : listed ((host me).event c .containerList w :: h) = some w.docker.list := by
      unfold listed
      rw [List.findSome?_cons, hlist]
    have hmade : made ((host me).event c .containerList w :: h) = [] := hm
    refine { hp with seen := ?_, known := ?_, older := ?_ }
    · intro l hl id b hb ri hri hid
      obtain rfl := Option.mem_unique hlisted hl
      obtain ⟨id', b', hb', rfl⟩ := Docker.mem_list.mp hri
      obtain rfl : id' = id := hid
      obtain rfl := Option.mem_unique hb hb'
      exact ⟨rfl, fun hr => hr⟩
    · intro l hl id b hb
      obtain rfl := Option.mem_unique hlisted hl
      exact Or.inl ⟨b.report id, Docker.mem_list.mpr ⟨id, b, hb, rfl⟩, rfl⟩
    · intro l hl ri hri
      obtain rfl := Option.mem_unique hlisted hl
      obtain ⟨id, b, hb, rfl⟩ := Docker.mem_list.mp hri
      refine ⟨w.docker.fresh id b hb, ?_⟩
      rw [hmade]
      exact fun _ => List.not_mem_nil

variable {c : Choice}

theorem passOk_uncreated {inst : Instance} (hD : ∃ D, copied h = some D ∧ D.map[inst.metadata.name]? = some inst)
    (he : (exec c (.containerCreate inst) w).2 = w) (hid : ∀ id, (exec c (.containerCreate inst) w).1 ≠ .created id)
    (hp : PassOk node w h) :
    PassOk node (exec c (.containerCreate inst) w).2 ((host me).event c (.containerCreate inst) w :: h) := by
  have hmade := made_create me inst c w h
  have hmem : ∀ m ∈ made ((host me).event c (.containerCreate inst) w :: h), m = (inst, none) ∨ m ∈ made h := by
    intro m hm
    rw [hmade] at hm
    rcases List.mem_append.mp hm with hm | hm
    · obtain ⟨known, hk, rfl⟩ := Option.map_eq_some_iff.mp (Option.mem_toList.mp hm)
      cases hr : (exec c (.containerCreate inst) w).1 with
      | created id => exact absurd hr (hid id)
      | failed e =>
        rw [hr] at hk
        exact Or.inl (by rw [← Option.some.inj hk])
      | conflict e =>
        rw [hr] at hk
        cases hk
    · exact Or.inr hm
  rw [he]
  refine { hp with known := ?_, older := ?_, owned := ?_ }
  · intro l hl id b hb
    rcases hp.known l hl id b hb with hk | ⟨m, hm, hlab⟩
    · exact Or.inl hk
    · refine Or.inr ⟨m, ?_, hlab⟩
      rw [hmade]
      exact List.mem_append_right _ hm
  · intro l hl ri hri
    have hold := hp.older l hl ri hri
    refine ⟨hold.1, ?_⟩
    intro inst' hm
    rcases hmem _ hm with heq | hm
    · cases heq
    · exact hold.2 inst' hm
  · intro m hm
    rcases hmem m hm with rfl | hm
    · exact hD
    · exact hp.owned m hm

theorem passOk_created {inst : Instance} {c : Choice} (hD : ∃ D, copied h = some D ∧ D.map[inst.metadata.name]? = some inst)
    (hfree : w.docker.taken inst.metadata.name = false)
    (he : (exec c (.containerCreate inst) w).2 = { w with docker := w.docker.create inst hfree })
    (hno : ∀ text, (exec c (.containerCreate inst) w).1 ≠ .conflict text)
    (hid : ∀ id, (exec c (.containerCreate inst) w).1 = .created id → id = w.docker.nextId)
    (hp : PassOk node w h) :
    PassOk node (exec c (.containerCreate inst) w).2 ((host me).event c (.containerCreate inst) w :: h) := by
  obtain ⟨known, hmade, hknown⟩ : ∃ known, made ((host me).event c (.containerCreate inst) w :: h) =
      (inst, known) :: made h ∧ ∀ id, known = some id → id = w.docker.nextId := by
    have hmade := made_create me inst c w h
    cases hr : (exec c (.containerCreate inst) w).1 with
    | created id =>
      rw [hr] at hmade
      exact ⟨some id, hmade, fun i hi => hid i (hr.trans (by rw [Option.some.inj hi]))⟩
    | failed e =>
      rw [hr] at hmade
      exact ⟨none, hmade, nofun⟩
    | conflict e => exact absurd hr (hno e)
  have hget : ∀ (id : ℕ) (b : Box), (w.docker.create inst hfree).boxes[id]? = some b →
      id = w.docker.nextId ∧ b = boxOf inst ∨ w.docker.boxes[id]? = some b := by
    intro id b hb
    rw [Docker.get_create] at hb
    split at hb
    · exact Or.inl ⟨Eq.symm ‹_›, (Option.some.inj hb).symm⟩
    · exact Or.inr hb
  rw [he]
  refine ⟨?_, ?_, ?_, ?_, ?_⟩
  · intro D hD' id b hb hr hk
    rcases hget id b hb with ⟨-, rfl⟩ | hb
    · cases hr
    · exact hp.covered D hD' id b hb hr hk
  · intro l hl id b hb ri hri hri'
    rcases hget id b hb with ⟨rfl, -⟩ | hb
    · have hlt := (hp.older l hl ri hri).1
      omega
    · exact hp.seen l hl id b hb ri hri hri'
  · intro l hl id b hb
    rw [hmade]
    rcases hget id b hb with ⟨-, rfl⟩ | hb
    · exact Or.inr ⟨_, List.mem_cons_self, rfl⟩
    · rcases hp.known l hl id b hb with hk | ⟨m, hm, hlab⟩
      · exact Or.inl hk
      · exact Or.inr ⟨m, List.mem_cons_of_mem _ hm, hlab⟩
  · intro l hl ri hri
    have hold := hp.older l hl ri hri
    refine ⟨Nat.lt_succ_of_lt hold.1, ?_⟩
    rw [hmade]
    intro inst' hm
    rcases List.mem_cons.mp hm with heq | hm
    · have hnew := hknown ri.containerID (Prod.mk.inj heq).2.symm
      omega
    · exact hold.2 inst' hm
  · rw [hmade]
    intro m hm
    rcases List.mem_cons.mp hm with rfl | hm
    · exact hD
    · exact hp.owned m hm

variable {id : ℕ}

theorem passOk_start (hspec : passSpec h w (.containerStart id)) (hp : PassOk node w h) :
    PassOk node (exec c (.containerStart id) w).2 ((host me).event c (.containerStart id) w :: h) := by
  have hsame : Same h ((host me).event c (.containerStart id) w :: h) := same_event rfl rfl rfl
  obtain ⟨hdocker, hcluster, -⟩ := start_cases c id w
  rcases hdocker with hd | hd
  · exact passOk_docker hsame (hd ▸ shrinks_refl _) hcluster hp
  · obtain ⟨l, inst, hl, hin⟩ := hspec
    have hunlisted : ∀ ri ∈ l, ri.containerID ≠ id := fun ri hri he => (hp.older l hl ri hri).2 inst (he ▸ hin)
    have hget : ∀ (i : ℕ) (b : Box), (exec c (.containerStart id) w).2.docker.boxes[i]? = some b →
        ∃ b₀, w.docker.boxes[i]? = some b₀ ∧ b₀.labels = b.labels ∧ (i = id ∨ b₀ = b) := by
      intro i b hb
      rw [show (exec c (.containerStart id) w).2.docker = w.docker.start id c.ip from hd] at hb
      unfold Docker.start at hb
      rw [Docker.get_update] at hb
      obtain ⟨b₀, hb₀, rfl⟩ := Option.map_eq_some_iff.mp hb
      refine ⟨b₀, hb₀, ?_⟩
      split
      · exact ⟨(start_labels c.ip b₀).symm, Or.inl ‹_›⟩
      · exact ⟨rfl, Or.inr rfl⟩
    refine ⟨?_, ?_, ?_, ?_, ?_⟩
    · intro D hD i b hb hr hk
      rw [hsame.1] at hD
      obtain ⟨b₀, hb₀, hlab, rfl | rfl⟩ := hget i b hb
      · rw [← hlab]
        rcases hp.known l hl i b₀ hb₀ with ⟨ri, hri, he⟩ | ⟨m, hm, hm'⟩
        · exact absurd he (hunlisted ri hri)
        · obtain ⟨D', hD', hi⟩ := hp.owned m hm
          obtain rfl := Option.mem_unique hD hD'
          rw [← hm']
          exact ⟨m.1, hi, rfl, rfl⟩
      · exact hp.covered D hD i b₀ hb₀ hr (hcluster ▸ hk)
    · intro l' hl' i b hb ri hri he
      rw [hsame.2.1] at hl'
      obtain rfl := Option.mem_unique hl hl'
      obtain ⟨b₀, hb₀, hlab, rfl | rfl⟩ := hget i b hb
      · exact absurd he (hunlisted ri hri)
      · exact hp.seen l hl i b₀ hb₀ ri hri he
    · intro l' hl' i b hb
      rw [hsame.2.1] at hl'
      rw [hsame.2.2]
      obtain ⟨b₀, hb₀, hlab, -⟩ := hget i b hb
      rw [← hlab]
      exact hp.known l' hl' i b₀ hb₀
    · intro l' hl' ri hri
      rw [hsame.2.1] at hl'
      rw [hsame.2.2]
      rw [show (exec c (.containerStart id) w).2.docker = w.docker.start id c.ip from hd]
      exact hp.older l' hl' ri hri
    · rw [hsame.1, hsame.2.2]
      exact hp.owned

theorem passOk_exec {op : Op} (hw : w.mem.desired = wanted w.cluster) (hn : Honest node w.cluster)
    (ho : InOrder w.cluster) (hspec : passSpec h w op) (hp : PassOk node w h) :
    PassOk node (exec c op w).2 ((host me).event c op w :: h) := by
  cases op with
  | snapshotDesired => exact passOk_copy hw hn ho hspec c hp
  | containerList => exact passOk_list hspec c hp
  | containerCreate inst =>
    rcases create_cases c inst w with ⟨he, hid⟩ | ⟨hfree, he, hno, hid⟩
    · exact passOk_uncreated hspec he hid hp
    · exact passOk_created hspec hfree he hno hid hp
  | containerStart id => exact passOk_start hspec hp
  | _ => exact passOk_docker (same_event rfl rfl rfl) (shrinks_exec rfl c w) (exec_keeps c _ w).1 hp

theorem kept_listed {D : Desired} {l : List RunningInstance} {b : Box} {ri : RunningInstance} (hp : PassOk node w h)
    (hD : copied h = some D) (hl : listed h = some l) (hb : w.docker.boxes[id]? = some b) (hr : b.running)
    (hk : Kept w.cluster node b.labels) (hri : ri ∈ l) (hid : ri.containerID = id) : ¬ Spares D ri := by
  intro hsp
  obtain ⟨hlab, hrun⟩ := hp.seen l hl id b hb ri hri hid
  have hoff := hsp (hlab ▸ hp.covered D hD id b hb hr hk)
  rw [hrun hr] at hoff
  cases hoff

theorem exec_spares {op : Op} {b : Box} (hspec : passSpec h w op) (hp : PassOk node w h)
    (hb : w.docker.boxes[id]? = some b) (hr : b.running) (hk : Kept w.cluster node b.labels) :
    (exec c op w).2.docker.boxes[id]? = some b := by
  cases op with
  | containerStop id' grace =>
    obtain ⟨D, l, ri, hD, hl, hri, rfl, hsp⟩ := hspec
    have hne : id ≠ ri.containerID := fun he => kept_listed hp hD hl hb hr hk hri he.symm hsp
    rcases (attempt_docker c w (w.docker.stop ri.containerID c.code)).1 with hd | hd
    · exact hd ▸ hb
    · show (attempt c w (w.docker.stop ri.containerID c.code)).2.docker.boxes[id]? = some b
      rw [hd]
      unfold Docker.stop
      rw [Docker.get_update, hb, Option.map_some, if_neg hne]
  | containerRemove id' =>
    obtain ⟨D, l, ri, hD, hl, hri, rfl, hsp⟩ := hspec
    have hne : id ≠ ri.containerID := fun he => kept_listed hp hD hl hb hr hk hri he.symm hsp
    rcases (attempt_docker c w (w.docker.remove ri.containerID)).1 with hd | hd
    · exact hd ▸ hb
    · show (attempt c w (w.docker.remove ri.containerID)).2.docker.boxes[id]? = some b
      rw [hd]
      exact Docker.get_keep.mpr ⟨hb, by simpa using hne⟩
  | containerRemoveName name =>
    obtain ⟨D, l, hD, hl, hsp, hunmade⟩ := hspec
    have hne : b.name ≠ name := by
      rintro rfl
      rcases hp.known l hl id b hb with ⟨ri, hri, hid⟩ | ⟨m, hm, hlab⟩
      · have hlab := (hp.seen l hl id b hb ri hri hid).1
        exact kept_listed hp hD hl hb hr hk hri hid (hsp ri hri (congrArg Prod.fst hlab))
      · exact hunmade m hm (congrArg Prod.fst hlab)
    rcases (attempt_docker c w (w.docker.removeNamed name)).1 with hd | hd
    · exact hd ▸ hb
    · show (attempt c w (w.docker.removeNamed name)).2.docker.boxes[id]? = some b
      rw [hd]
      exact Docker.get_keep.mpr ⟨hb, by simpa using hne⟩
  | containerCreate inst =>
    show (containerCreate c inst w).2.docker.boxes[id]? = some b
    rcases create_cases c inst w with ⟨he, -⟩ | ⟨hfree, he, -⟩
    · rw [he]
      exact hb
    · rw [he]
      have hlt := w.docker.fresh id b hb
      show (w.docker.create inst hfree).boxes[id]? = some b
      rw [Docker.get_create, if_neg (by omega), hb]
  | containerStart id' =>
    show (containerStart c id' w).2.docker.boxes[id]? = some b
    rcases (start_cases c id' w).1 with hd | hd
    · rw [hd]
      exact hb
    · rw [hd]
      unfold Docker.start
      rw [Docker.get_update, hb, Option.map_some, start_of_running c.ip hr, ite_self]
  | _ => exact hb

end Pass

section System
variable {me : Identity} {s : Process me}

/- What holds in every state a run reaches. -/
structure Sound (s : Process me) : Prop where
  recorded : Recorded s
  conforms : Conforms (fun _ => passSpec) (fun _ _ _ => True) s
  single : ∀ t t' th th' op op', s.Calls t th op → s.Calls t' th' op' → t = t'
  honest : Honest me.node s.world.cluster
  desired : s.world.mem.desired = wanted s.world.cluster

theorem sound_start (me : Identity) (d : Docker) (now : Int) : Sound (start me d now) where
  recorded := by
    nofun
  conforms := by
    nofun
  single := by
    intro t t' th th' op op' h _
    cases h.1
  honest := ⟨by simp [start], by simp [start], by simp [start], by simp [start], by simp [start], by simp [start]⟩
  desired := rfl

theorem single_next {l : Beat me} (hl : OneLoop s l)
    (hs : ∀ t t' th th' op op', s.Calls t th op → s.Calls t' th' op' → t = t') :
    ∀ t t' th th' op op', (s.next (body me) l).Calls t th op → (s.next (body me) l).Calls t' th' op' → t = t' := by
  intro t t' th th' op op' h h'
  rcases calls_next (body me) h with ⟨u, o, hold, -⟩ | ⟨he, rfl⟩
  · rcases calls_next (body me) h' with ⟨u', o', hold', -⟩ | ⟨he', -⟩
    · exact hs t t' u u' o o' hold hold'
    · rw [he'] at hl
      exact absurd hold (hl t u o)
  · rcases calls_next (body me) h' with ⟨u', o', hold', -⟩ | ⟨-, rfl⟩
    · rw [he] at hl
      exact absurd hold' (hl t' u' o')
    · rfl

theorem wanted_receive (c : Cluster) {m : ℕ × NodeSnapshot} (h : c.incoming = some m) :
    wanted c.receive = desiredOf m.2.instances := by
  rcases receive_cases c with ⟨hnone, -⟩ | ⟨k, st, m', rest, -, -, -, hin, he⟩
  · rw [hnone] at h
    cases h
  · obtain rfl := Option.mem_unique hin h
    rw [he]
    rfl

variable {w : World}

theorem honest_move (me : Identity) (mv : Move) (h : Honest me.node w.cluster) :
    Honest me.node (move me mv w).cluster := by
  cases mv with
  | commit st => exact honest_commit st h
  | boot => exact honest_boot h
  | recompute i r => exact honest_recompute i r h
  | connect i => exact honest_connect me.principal i rfl h
  | serve k alive => exact honest_serve k alive h
  | receive =>
    unfold move
    dsimp only
    split
    · exact honest_receive h
    · exact h
  | drop => exact { h with }
  | exit id code => exact h
  | vanish id => exact h
  | probed name ready => exact h
  | tick d => exact h

theorem desired_move (me : Identity) (mv : Move) (h : w.mem.desired = wanted w.cluster) :
    (move me mv w).mem.desired = wanted (move me mv w).cluster := by
  have hkeep : ∀ c : Cluster, c.applied = w.cluster.applied → w.mem.desired = wanted c := by
    intro c hc
    unfold wanted at h ⊢
    rw [hc]
    exact h
  cases mv with
  | recompute i r =>
    apply hkeep
    unfold move Cluster.recompute
    dsimp only
    split <;> rfl
  | connect i =>
    apply hkeep
    unfold move Cluster.connect
    dsimp only
    split <;> rfl
  | serve k alive =>
    apply hkeep
    unfold move Cluster.serve
    dsimp only
    split
    · split <;> rfl
    · rfl
  | receive =>
    unfold move
    dsimp only
    split
    · rename_i m hm
      exact (wanted_receive w.cluster hm).symm
    · exact h
  | _ => exact h

theorem inOrder_move (me : Identity) {mv : Move} (hn : Honest me.node w.cluster)
    (hf : ∀ i, mv = .connect i → ∀ u, w.cluster.upstreams[i]? = some u → ∀ m ∈ w.cluster.applied, m.1 ≤ u.basis)
    (h : InOrder w.cluster) : InOrder (move me mv w).cluster := by
  cases mv with
  | commit st => exact inOrder_commit st h
  | boot => exact inOrder_boot hn h
  | recompute i r => exact inOrder_recompute i r hn h
  | connect i => exact inOrder_connect me.principal _ i (hf i rfl) h
  | serve k alive => exact inOrder_serve k alive hn h
  | receive =>
    unfold move
    dsimp only
    split
    · exact inOrder_receive hn h
    · exact h
  | drop => exact inOrder_drop h
  | _ => exact h

theorem sound_next {l : Beat me} (hl : OneLoop s l) (hs : Sound s) : Sound (s.next (body me) l) where
  recorded := recorded_next l hs.recorded
  conforms := conforms_next l (fun p _ => obeys_turn me.node p) hs.recorded hs.conforms
  single := single_next hl hs.single
  honest := by
    rcases next_world (body me) s l with he | ⟨mv, -, he⟩ | ⟨t, c, th, op, -, -, he⟩ <;> rw [he]
    · exact hs.honest
    · exact honest_move me mv hs.honest
    · exact (exec_keeps c op s.world).1 ▸ hs.honest
  desired := by
    rcases next_world (body me) s l with he | ⟨mv, -, he⟩ | ⟨t, c, th, op, -, -, he⟩ <;> rw [he]
    · exact hs.desired
    · exact desired_move me mv hs.desired
    · obtain ⟨hc, hd⟩ := exec_keeps c op s.world
      show (exec c op s.world).2.mem.desired = wanted (exec c op s.world).2.cluster
      rw [hc, hd]
      exact hs.desired

theorem inOrder_next {l : Beat me} (hs : Sound s) (hl : DialsForward s l) (h : InOrder s.world.cluster) :
    InOrder (s.next (body me) l).world.cluster := by
  rcases next_world (body me) s l with he | ⟨mv, rfl, he⟩ | ⟨t, c, th, op, -, -, he⟩ <;> rw [he]
  · exact h
  · refine inOrder_move me hs.honest ?_ h
    rintro i rfl
    exact hl
  · exact (exec_keeps c op s.world).1 ▸ h

theorem kept_move (me : Identity) {mv : Move} (h : Kept (move me mv w).cluster me.node x) : Kept w.cluster me.node x ∨
      mv = .receive ∧ ∃ m, w.cluster.incoming = some m ∧ ∃ inst ∈ m.2.instances, (boxOf inst).labels = x := by
  have hsame : ∀ c : Cluster, c.applied = w.cluster.applied → c.revs = w.cluster.revs → Kept c me.node x →
      Kept w.cluster me.node x := by
    intro c ha hr hk
    unfold Kept at hk ⊢
    rw [← ha, ← hr]
    exact hk
  cases mv with
  | commit st =>
    obtain ⟨m, hm, hin, hst⟩ := h
    refine Or.inl ⟨m, hm, hin, ?_⟩
    intro s' hs'
    apply hst
    show s' ∈ (w.cluster.revs ++ [st]).drop m.1
    rw [List.drop_append]
    exact List.mem_append_left _ hs'
  | recompute i r =>
    refine Or.inl (hsame _ ?_ ?_ h) <;>
    · unfold move Cluster.recompute
      dsimp only
      split <;> rfl
  | connect i =>
    refine Or.inl (hsame _ ?_ ?_ h) <;>
    · unfold move Cluster.connect
      dsimp only
      split <;> rfl
  | serve k alive =>
    refine Or.inl (hsame _ ?_ ?_ h) <;>
    · unfold move Cluster.serve
      dsimp only
      split
      · split <;> rfl
      · rfl
  | receive =>
    cases hin : w.cluster.incoming with
    | none =>
      simp only [move, hin] at h
      exact Or.inl h
    | some m =>
      simp only [move, hin] at h
      rcases receive_cases w.cluster with ⟨hnone, -⟩ | ⟨k, st, m', rest, -, -, -, hin', he⟩
      · rw [hnone] at hin
        cases hin
      · obtain rfl := Option.mem_unique hin' hin
        rw [he] at h
        obtain ⟨m₀, hm₀, hinst, hst⟩ := h
        rcases List.mem_cons.mp hm₀ with rfl | hm₀
        · exact Or.inr ⟨rfl, m₀, rfl, hinst⟩
        · exact Or.inl ⟨m₀, hm₀, hinst, hst⟩
  | _ => exact Or.inl h

def AtWork (s : Process me) : Prop := ∀ t th op, s.Calls t th op → PassOk me.node s.world th.hist

theorem atWork_next {l : Beat me} (hs : Sound s) (ho : InOrder s.world.cluster) (hl : ArrivesInStep s l)
    (h : AtWork s) : AtWork (s.next (body me) l) := by
  intro t th op hcall
  obtain ⟨hth, k, hp⟩ := hcall
  rcases next_thread (body me) hth with ⟨th₀, hth₀, htag, hhist, hprog⟩ | ⟨p, rfl, rfl⟩ | ⟨c, th₀, op₀, k₀, rfl, hth₀, hp₀, rfl⟩
  · have hcall₀ : s.Calls t th₀ op := by
      rcases hprog with hprog | hprog
      · exact ⟨hth₀, k, hprog ▸ hp⟩
      · rw [hprog] at hp
        cases hp
    rw [hhist]
    have hold := h t th₀ op hcall₀
    cases l with
    | spawn p => exact hold
    | abandon u => exact hold
    | move mv =>
      refine passOk_shrinks (same_refl _) (shrinks_move me mv s.world) ?_ hold
      intro D hD id b hb hr hk
      rcases kept_move me hk with hk | ⟨rfl, m, hin, inst, hinst, hlab⟩
      · exact Or.inl hk
      · exact Or.inr (hl t th₀ op D m hcall₀ hD hin inst hinst id b hb hr hlab.symm)
    | step u c =>
      -- Another thread's call: there is no other at work.
      rcases next_step (body me) s u c with ⟨th₁, op₁, k₁, hth₁, hp₁, he⟩ | he
      · obtain rfl := hs.single t u th₀ th₁ op op₁ hcall₀ ⟨hth₁, k₁, hp₁⟩
        rw [he, List.getElem?_set_self (List.getElem?_eq_some_iff.mp hth₁).1] at hth
        cases hth
        obtain rfl := Option.mem_unique hth₀ hth₁
        have hlen := congrArg List.length hhist
        simp at hlen
      · rw [he]
        exact hold
  · exact passOk_nil _ _
  · rw [next_call (body me) hth₀ hp₀]
    have hcall₀ : s.Calls t th₀ op₀ := ⟨hth₀, k₀, hp₀⟩
    exact passOk_exec hs.desired hs.honest ho (conforms_call hs.recorded hs.conforms hcall₀) (h t th₀ op₀ hcall₀)

section Orders
variable (d : Docker) (now : Int) (ls : List (Beat me)) (hloop : Along (body me) OneLoop (start me d now) ls)
  (hdial : Along (body me) DialsForward (start me d now) ls)
include d now ls hloop hdial

theorem order_run :
    Sound ((start me d now).run (body me) ls) ∧ InOrder ((start me d now).run (body me) ls).world.cluster := by
  refine run_invariant (body me) (fun s => Sound s ∧ InOrder s.world.cluster) _ ?_ _ ls ⟨sound_start me d now, List.Pairwise.nil⟩
    (along_and (body me) _ ls hloop hdial)
  intro s l hs hc
  exact ⟨sound_next hc.1 hs.1, inOrder_next hs.1 hc.2 hs.2⟩

theorem atWork_run (hin : Along (body me) ArrivesInStep (start me d now) ls) :
    AtWork ((start me d now).run (body me) ls) := by
  have hstart : AtWork (start me d now) := fun _ _ _ h => by cases h.1
  refine (run_invariant (body me) (fun s => (Sound s ∧ InOrder s.world.cluster) ∧ AtWork s) _ ?_ _ ls
    ⟨⟨sound_start me d now, List.Pairwise.nil⟩, hstart⟩
    (along_and (body me) _ ls (along_and (body me) _ ls hloop hdial) hin)).2
  intro s l hs hc
  exact ⟨⟨sound_next hc.1.1 hs.1.1, inOrder_next hs.1.1 hc.1.2 hs.1.2⟩, atWork_next hs.1.1 hs.1.2 hc.2 hs.2⟩

end Orders

end System

/-- An agent that dials forward applies snapshots of ever newer revisions. If also no snapshot
overtakes a pass, no call of a pass changes a running container that is kept. -/
theorem agent_keeps_time (me : Identity) (d : Docker) (now : Int) (ls : List (Beat me))
    (hloop : Along (body me) OneLoop (start me d now) ls) (hdial : Along (body me) DialsForward (start me d now) ls) :
    (∀ m ∈ ((start me d now).run (body me) ls).world.cluster.applied,
      Computed ((start me d now).run (body me) ls).world.cluster me.node m) ∧
    (((start me d now).run (body me) ls).world.cluster.applied.map (·.1)).Pairwise (· ≥ ·) ∧
    (Along (body me) ArrivesInStep (start me d now) ls → ∀ (t : ℕ) (c : Choice) (id : ℕ) (b : Box),
      ((start me d now).run (body me) ls).world.docker.boxes[id]? = some b → b.running →
      Kept ((start me d now).run (body me) ls).world.cluster me.node b.labels →
      (((start me d now).run (body me) ls).next (body me) (.step t c)).world.docker.boxes[id]? = some b) := by
  obtain ⟨hs, ho⟩ := order_run d now ls hloop hdial
  refine ⟨fun m hm => (hs.honest.applied m hm).1, inOrder_applied ho, ?_⟩
  intro hin t c id b hb hr hk
  have hwork := atWork_run d now ls hloop hdial hin
  rcases next_step (body me) ((start me d now).run (body me) ls) t c with ⟨th, op, k, hth, hp, he⟩ | he
  · rw [he]
    have hcall : ((start me d now).run (body me) ls).Calls t th op := ⟨hth, k, hp⟩
    exact exec_spares (conforms_call hs.recorded hs.conforms hcall) (hwork t th op hcall) hb hr hk
  · rw [he]
    exact hb

section Runs

def nodeA : Identity := ⟨"a", .node "a"⟩

def plain : Pass := ⟨fun l => l, fun l => List.Perm.refl l⟩

def webInstance : Instance :=
  { metadata := { name := "web-1a2b" }, spec := { workload := "web", node := "a", templateHash := "h" } }

def webStore : Store := (Store.empty.put 7 .inst webInstance revCreate).2

def twoReplicas : List (Beat nodeA) :=
  [.move (.commit Store.empty), .move (.commit webStore), .move .boot, .move .boot,
    .move (.recompute 0 1), .move (.recompute 1 0)]

def follow (i k : ℕ) : List (Beat nodeA) :=
  [.move (.connect i), .move (.serve k true), .move (.serve k true), .move (.serve k true), .move .receive]

def steps (t n : ℕ) : List (Beat nodeA) := .spawn plain :: List.replicate n (.step t {})

def settled : List (Beat nodeA) := twoReplicas ++ follow 0 0 ++ steps 0 13 ++ [.move .drop]

def staleRun : List (Beat nodeA) := settled ++ follow 1 1 ++ steps 1 4

def forwardRun : List (Beat nodeA) := settled ++ [.move (.recompute 1 1)] ++ follow 1 1 ++ steps 1 4

def resting (s : Process nodeA) : Bool := s.threads.all fun th =>
  match th.prog with
  | .call _ _ => false
  | _ => true

theorem resting_calls {s : Process nodeA} (h : resting s) (t : ℕ) (th : Thread (host nodeA) Pass (Except String (List String)))
    (op : Op) : ¬ s.Calls t th op := by
  rintro ⟨hth, k, hp⟩
  have hr := List.all_eq_true.mp h th (List.mem_of_getElem? hth)
  rw [hp] at hr
  cases hr

def checkLoop (s : Process nodeA) : Beat nodeA → Bool
  | .spawn _ => resting s
  | _ => true

theorem loop_of_check (s : Process nodeA) (l : Beat nodeA) (h : checkLoop s l) : OneLoop s l := by
  cases l with
  | spawn p => exact resting_calls h
  | _ => trivial

def checkDial (s : Process nodeA) : Beat nodeA → Bool
  | .move (.connect i) => (s.world.cluster.upstreams[i]?).all fun u => s.world.cluster.applied.all fun m => m.1 ≤ u.basis
  | _ => true

theorem dial_of_check (s : Process nodeA) (l : Beat nodeA) (h : checkDial s l) : DialsForward s l := by
  cases l with
  | move mv =>
    cases mv with
    | connect i =>
      intro u hu m hm
      simp only [checkDial, hu, Option.all_some] at h
      exact of_decide_eq_true (List.all_eq_true.mp h m hm)
    | _ => trivial
  | _ => trivial

def checkArrives (s : Process nodeA) : Beat nodeA → Bool
  | .move .receive => resting s
  | _ => true

theorem arrives_of_check (s : Process nodeA) (l : Beat nodeA) (h : checkArrives s l) : ArrivesInStep s l := by
  cases l with
  | move mv =>
    cases mv with
    | receive =>
      intro t th op D m hcall
      exact absurd hcall (resting_calls h t th op)
    | _ => trivial
  | _ => trivial

def checkStored (node : String) (x : String × Uid × String) (s : Store) : Bool :=
  (s.listing .inst).any fun o => (boxOf o).labels = x && (Instance.spec o).node = node

def checkKept (c : Cluster) (node : String) (x : String × Uid × String) : Bool :=
  c.applied.any fun m => (m.2.instances.any fun inst => (boxOf inst).labels = x) && (c.revs.drop m.1).all (checkStored node x)

theorem kept_of_check {c : Cluster} {node : String} (h : checkKept c node x) : Kept c node x := by
  obtain ⟨m, hm, hc⟩ := List.any_eq_true.mp h
  rw [Bool.and_eq_true] at hc
  obtain ⟨inst, hinst, hlab⟩ := List.any_eq_true.mp hc.1
  refine ⟨m, hm, ⟨inst, hinst, of_decide_eq_true hlab⟩, ?_⟩
  intro s hs
  obtain ⟨o, ho, hx⟩ := List.any_eq_true.mp (List.all_eq_true.mp hc.2 s hs)
  rw [Bool.and_eq_true] at hx
  have hlab := of_decide_eq_true hx.1
  exact ⟨o, mem_listing.mp ho, congrArg Prod.fst hlab, congrArg (fun y => y.2.1) hlab, congrArg (fun y => y.2.2) hlab,
    of_decide_eq_true hx.2⟩

def webBox : Box := { name := "web-1a2b", uid := 1, hash := "h", running := true }

abbrev reached (d : Docker) (ls : List (Beat nodeA)) : Process nodeA := (start nodeA d 0).run (body nodeA) ls

/-- The agent has applied revision 1 and dials the replica that is still at revision 0. It applies
what that replica sends, and its next pass stops a container that nobody gave up. -/
theorem agent_goes_back : Along (body nodeA) OneLoop (start nodeA Docker.none 0) staleRun ∧
    (reached Docker.none staleRun).world.cluster.applied.map (·.1) = [0, 1] ∧
    (reached Docker.none staleRun).world.docker.boxes[0]? = some webBox ∧
    Kept (reached Docker.none staleRun).world.cluster "a" webBox.labels ∧
    ((reached Docker.none staleRun).next (body nodeA) (.step 1 {})).world.docker.boxes[0]? =
      some { webBox with running := false } := by
  refine ⟨along_of_check (body nodeA) loop_of_check _ _ (by decide +kernel), by decide +kernel, by decide +kernel,
    kept_of_check (by decide +kernel), by decide +kernel⟩

/-- The run of the first agent with a second replica that has caught up. -/
theorem agent_keeps_time_forward : (reached Docker.none forwardRun).world.cluster.applied.map (·.1) = [1, 1] ∧
    ((reached Docker.none forwardRun).world.cluster.applied.map (·.1)).Pairwise (· ≥ ·) ∧
    ((reached Docker.none forwardRun).next (body nodeA) (.step 1 {})).world.docker.boxes[0]? = some webBox := by
  obtain ⟨-, horder, hkeep⟩ := agent_keeps_time nodeA Docker.none 0 forwardRun
    (along_of_check (body nodeA) loop_of_check _ _ (by decide +kernel))
    (along_of_check (body nodeA) dial_of_check _ _ (by decide +kernel))
  refine ⟨by decide +kernel, horder, ?_⟩
  exact hkeep (along_of_check (body nodeA) arrives_of_check _ _ (by decide +kernel)) 1 {} 0 webBox (by decide +kernel) rfl
    (kept_of_check (by decide +kernel))

end Runs

end Klite.Agent
