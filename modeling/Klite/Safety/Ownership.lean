import Klite.Safety.Writers

/-!
# Who owns which field

Apply owns specs and labels, Scale the replica count, Delete of a node the pending-delete
label, the scheduler an unbound instance's node. Everything else writes status only.
-/

namespace Klite
open Lib

def takeStatus : {k : Kind} → k.Obj → k.Obj → k.Obj
  | .workload, cur, new => ({ cur with status := Workload.status new } : Workload)
  | .node, cur, new => ({ cur with status := Node.status new } : Node)
  | .inst, cur, new => ({ cur with status := Instance.status new } : Instance)
  | .service, cur, _ => cur
  | .networkPolicy, cur, _ => cur
  | .vipAllocation, cur, _ => cur
  | .ingressAllocation, cur, _ => cur

def withPendingDelete (node : Node) : Node :=
  { node with metadata.labels := node.metadata.labels.insert labelPendingDelete "true" }

def withNode (inst : Instance) (node : String) : Instance := { inst with spec.node := node }

def withReplicas (w : Workload) (replicas : Int) : Workload := { w with spec.replicas := replicas }

-- The writers of nothing but status, and the kinds they write it to.
def Call.reports : Call → Kind → Bool
  | .register _ _, .node | .reportStatus _ _, .node | .reportStatus _ _, .inst => true
  | .uncordon _, .node | .drain _ _ _ _, .node | .nodeController, .node => true
  | .workload _ _, .workload | .workload _ _, .inst => true
  | _, _ => false

/- What each writer may change of an object that exists; `h` is what the writer has read. -/
inductive Owned (h : Log) : Call → {k : Kind} → k.Obj → k.Obj → Prop where
  | spec (decoded : Except String (List Object)) {k : Kind} (cur new : k.Obj)
      (hk : serverMaterialized k = false) (hnew : new = mergeSpec cur new) : Owned h (.apply decoded) cur new
  | replicas (name : String) (replicas : Int) (cur new : Workload) (hnew : new = withReplicas cur replicas) :
      Owned h (.scale name replicas) (k := .workload) cur new
  | pendingDelete (req : DeleteRequest) (cur new : Node)
      (hnew : new = takeStatus (k := .node) (withPendingDelete cur) new) :
      Owned h (.delete req) (k := .node) cur new
  | bind (cur new : Instance) (hfree : cur.spec.node = "")
      (hnew : new = takeStatus (k := .inst) (withNode cur new.spec.node) new)
      (hnode : new.spec.node = "" ∨
        ∃ nodes, lastListed .node h = some nodes ∧ ∃ n ∈ nodes, n.metadata.name = new.spec.node) :
      Owned h .scheduler (k := .inst) cur new
  | status (g : Call) {k : Kind} (cur new : k.Obj) (hk : g.reports k) (hnew : new = takeStatus cur new) :
      Owned h g cur new

section Edits
variable {cfg : Config} {g : Call} {h : Log} {w : World} {k : Kind} {cur new : k.Obj}

theorem mergeSpec_self (e i : k.Obj) : mergeSpec e (mergeSpec e i) = mergeSpec e i := by
  cases k <;> rfl

theorem register_status {name : String} {cur new : Node} (hr : RegisterEdit name h cur new) :
    new = takeStatus (k := .node) cur new := by
  obtain ⟨-, ⟨idx, unix, addr, rfl, -⟩ | ⟨rfl, -⟩⟩ := hr
  · rfl
  · rfl

theorem report_status {name : String} {cur new : Node} (hr : ReportNodeEdit name h cur new) :
    new = takeStatus (k := .node) cur new := by
  obtain ⟨-, ⟨unix, adv, rfl⟩ | ⟨i, -, -, rfl⟩ | ⟨rfl, -⟩⟩ := hr
  · rfl
  · rfl
  · rfl

theorem scheduler_owned {cur new : Instance} (hr : schedulerRights.edit .inst h w cur new) :
    Owned h .scheduler (k := .inst) cur new := by
  obtain ⟨hfree, -, ⟨nodes, node, hl, ⟨n, hm, hn, -⟩, rfl⟩ | ⟨pin, rfl⟩⟩ := hr
  · exact .bind _ _ hfree rfl (Or.inr ⟨nodes, hl, n, hm, hn⟩)
  · exact .bind _ _ hfree rfl (Or.inl hfree)

/-- Every edit a writer has the right to is one of what it owns. -/
theorem edit_owned (hg : g.Writer) (hr : (writerRights cfg g).edit k h w cur new) : Owned h g cur new := by
  cases g with
  | apply decoded =>
    obtain ⟨o, ⟨hk, -⟩, rfl⟩ := hr
    exact .spec decoded _ _ hk (mergeSpec_self cur o).symm
  | scale workload replicas =>
    cases k with
    | workload => exact .replicas workload replicas _ _ hr.2
    | _ => exact hr.elim
  | delete req =>
    cases k with
    | node =>
      obtain ⟨-, -, rfl⟩ := hr
      exact .pendingDelete req _ _ rfl
    | _ => exact hr.elim
  | scheduler =>
    cases k with
    | inst => exact scheduler_owned hr
    | _ => exact hr.elim
  | register p req =>
    cases k with
    | node => exact .status _ _ _ rfl (register_status hr)
    | _ => exact hr.elim
  | reportStatus p req =>
    cases k with
    | node => exact .status _ _ _ rfl (report_status hr)
    | inst =>
      obtain ⟨-, u, -, st, -, -, -, -, rfl⟩ := hr
      exact .status _ _ _ rfl rfl
    | _ => exact hr.elim
  | uncordon node =>
    cases k with
    | node =>
      obtain ⟨-, -, rfl⟩ := hr
      exact .status _ _ _ rfl rfl
    | _ => exact hr.elim
  | drain node force order polls =>
    cases k with
    | node =>
      obtain ⟨-, rfl⟩ := hr
      exact .status _ _ _ rfl rfl
    | _ => exact hr.elim
  | nodeController =>
    cases k with
    | node =>
      obtain ⟨insts, -, silence, rfl⟩ := hr
      exact .status _ _ _ rfl rfl
    | _ => exact hr.elim
  | workload order passes =>
    cases k with
    | workload =>
      obtain ⟨-, st, rfl⟩ := hr
      exact .status _ _ _ rfl rfl
    | inst =>
      obtain ⟨-, _, _, _, _, reason, -, -, rfl⟩ := hr
      exact .status _ _ _ rfl rfl
    | _ => exact hr.elim
  | other p => exact hr.elim

end Edits

def SameSpec : {k : Kind} → k.Obj → k.Obj → Prop
  | .workload, a, b => Workload.spec a = Workload.spec b
  | .service, a, b => Service.spec a = Service.spec b
  | .node, a, b => Node.spec a = Node.spec b
  | .networkPolicy, a, b => NetworkPolicy.spec a = NetworkPolicy.spec b
  | .inst, a, b => Instance.spec a = Instance.spec b
  | .vipAllocation, a, b => setMeta (k := .vipAllocation) a {} = setMeta (k := .vipAllocation) b {}
  | .ingressAllocation, a, b => setMeta (k := .ingressAllocation) a {} = setMeta (k := .ingressAllocation) b {}

def SameIndex : {k : Kind} → k.Obj → k.Obj → Prop
  | .node, a, b => Node.index a = Node.index b
  | _, _, _ => True

def StaysBound : {k : Kind} → k.Obj → k.Obj → Prop
  | .inst, cur, new => (Instance.spec cur).node ≠ "" → (Instance.spec new).node = (Instance.spec cur).node
  | _, _, _ => True

def Call.ownsSpec : Call → Bool
  | .apply _ | .scale _ _ | .scheduler => true
  | _ => false

def Call.ownsLabels : Call → Bool
  | .apply _ | .delete _ => true
  | _ => false

def Call.ownsIndex : Call → Bool
  | .register _ _ | .reportStatus _ _ => true
  | _ => false

/- One write of an existing object, by field: what it changes its writer owns. -/
structure OwnedWrite (h : Log) (g : Call) {k : Kind} (cur new : k.Obj) : Prop where
  owned : Owned h g cur new
  name : (metaOf new).name = (metaOf cur).name
  uid : (metaOf new).uid = (metaOf cur).uid
  created : (metaOf new).createdUnix = (metaOf cur).createdUnix
  bound : StaysBound cur new
  spec : g.ownsSpec ∨ SameSpec new cur
  labels : g.ownsLabels ∨ (metaOf new).labels = (metaOf cur).labels
  index : g.ownsIndex ∨ SameIndex new cur

theorem metaOf_takeStatus {k : Kind} (cur new : k.Obj) : metaOf (takeStatus cur new) = metaOf cur := by
  cases k <;> rfl

theorem sameSpec_takeStatus {k : Kind} (cur new : k.Obj) : SameSpec (takeStatus cur new) cur := by
  cases k <;> rfl

theorem staysBound_takeStatus {k : Kind} (cur new : k.Obj) : StaysBound cur (takeStatus cur new) := by
  cases k with
  | inst => exact fun _ => rfl
  | _ => trivial

section Fields
variable {h : Log} {g : Call} {k : Kind} {cur new : k.Obj}

theorem owned_meta (ho : Owned h g cur new) :
    metaOf new = { metaOf cur with labels := (metaOf new).labels } ∧
      (g.ownsLabels ∨ (metaOf new).labels = (metaOf cur).labels) := by
  cases ho with
  | spec decoded cur new hk hnew =>
    refine ⟨?_, Or.inl rfl⟩
    rw [hnew, metaOf_mergeSpec]
  | replicas name replicas cur new hnew =>
    rw [hnew]
    exact ⟨rfl, Or.inr rfl⟩
  | pendingDelete req cur new hnew =>
    rw [hnew]
    exact ⟨rfl, Or.inl rfl⟩
  | bind cur new hfree hnew hnode =>
    rw [hnew]
    exact ⟨rfl, Or.inr rfl⟩
  | status g cur new hk hnew =>
    rw [hnew, metaOf_takeStatus]
    exact ⟨rfl, Or.inr rfl⟩

theorem owned_spec (ho : Owned h g cur new) : g.ownsSpec ∨ SameSpec new cur := by
  cases ho with
  | spec decoded cur new hk hnew => exact Or.inl rfl
  | replicas name replicas cur new hnew => exact Or.inl rfl
  | pendingDelete req cur new hnew =>
    rw [hnew]
    exact Or.inr rfl
  | bind cur new hfree hnew hnode => exact Or.inl rfl
  | status g cur new hk hnew =>
    rw [hnew]
    exact Or.inr (sameSpec_takeStatus cur new)

theorem owned_bound (ho : Owned h g cur new) : StaysBound cur new := by
  cases ho with
  | spec decoded cur new hk hnew =>
    cases k with
    | inst => cases hk
    | _ => trivial
  | replicas name replicas cur new hnew => trivial
  | pendingDelete req cur new hnew => trivial
  | bind cur new hfree hnew hnode => exact fun hne => absurd hfree hne
  | status g cur new hk hnew =>
    rw [hnew]
    exact staysBound_takeStatus cur new

theorem takeStatus_stamp (cur new : k.Obj) (r : Int) :
    takeStatus (stamp cur r) (stamp new r) = stamp (takeStatus cur new) r := by
  cases k <;> rfl

theorem mergeSpec_stamp (cur new : k.Obj) (r : Int) :
    mergeSpec (stamp cur r) (stamp new r) = stamp (mergeSpec cur new) r := by
  cases k <;> rfl

theorem owned_stamp (ho : Owned h g cur new) (r : Int) : Owned h g (stamp cur r) (stamp new r) := by
  cases ho with
  | spec decoded cur new hk hnew =>
    refine .spec decoded _ _ hk ?_
    rw [mergeSpec_stamp, ← hnew]
  | replicas name replicas cur new hnew =>
    rw [hnew]
    exact .replicas name replicas _ _ rfl
  | pendingDelete req cur new hnew =>
    rw [hnew]
    exact .pendingDelete req _ _ rfl
  | bind cur new hfree hnew hnode =>
    refine .bind _ _ hfree ?_ hnode
    rw [hnew]
    rfl
  | status g cur new hk hnew =>
    refine .status g _ _ hk ?_
    rw [takeStatus_stamp, ← hnew]

end Fields

theorem edit_index {cfg : Config} {g : Call} {h : Log} {w : World} {k : Kind} {cur new : k.Obj}
    (hr : (writerRights cfg g).edit k h w cur new) : g.ownsIndex ∨ SameIndex new cur := by
  cases k with
  | node =>
    cases g with
    | register p req => exact Or.inl rfl
    | reportStatus p req => exact Or.inl rfl
    | apply decoded =>
      obtain ⟨o, -, rfl⟩ := hr
      exact Or.inr rfl
    | delete req =>
      obtain ⟨-, -, rfl⟩ := hr
      exact Or.inr rfl
    | uncordon node =>
      obtain ⟨-, -, rfl⟩ := hr
      exact Or.inr rfl
    | drain node force order polls =>
      obtain ⟨-, rfl⟩ := hr
      exact Or.inr rfl
    | nodeController =>
      obtain ⟨insts, -, silence, rfl⟩ := hr
      exact Or.inr ((index_status _ _).trans (observedStatus_nodeIndex _ _ _ _))
    | _ => exact hr.elim
  | _ => exact Or.inr trivial

theorem sameIndex_stamp {k : Kind} {a b : k.Obj} (h : SameIndex a b) (r : Int) : SameIndex (stamp a r) (stamp b r) := by
  cases k <;> exact h

theorem ownedWrite_of_edit {cfg : Config} {g : Call} {h : Log} {w : World} {k : Kind} {cur new : k.Obj}
    (hg : g.Writer) (hr : (writerRights cfg g).edit k h w cur new) (r : Int) :
    OwnedWrite h g (stamp cur r) (stamp new r) := by
  have ho := owned_stamp (edit_owned hg hr) r
  obtain ⟨hmeta, hlabels⟩ := owned_meta ho
  exact ⟨ho, by rw [hmeta], by rw [hmeta], by rw [hmeta], owned_bound ho, owned_spec ho, hlabels,
    (edit_index hr).imp (fun h => h) fun hi => sameIndex_stamp hi r⟩

/-- In every state of every run of all writers, with any interleaving, faults and leader lives: a
step that replaces a stored object is a write by one of them, over the version stored immediately
before, and what it changes of it that writer owns. -/
theorem write_owned (cfg : Config) (w : World) (ls : List Step) (l : Step)
    (hl : Along (body cfg) (fun _ l => Admits Call.Writer l) (start w) (ls ++ [l]))
    {k : Kind} {n : String} {cur new : k.Obj} {r r' : Int}
    (hpre : ((start w).run (body cfg) ls).world.store.lookup k n = some (cur, r))
    (hpost : ((start w).run (body cfg) (ls ++ [l])).world.store.lookup k n = some (new, r')) (hne : r' ≠ r) :
    ∃ t c th, l = .step t c ∧ ((start w).run (body cfg) ls).threads[t]? = some th ∧ th.tag.Writer ∧
      OwnedWrite th.hist th.tag (stamp cur r') new := by
  have hs := writing_run cfg w ls (along_init (body cfg) _ _ _ hl)
  have hlast := (along_append (body cfg) _ _ _ hl).1
  rw [run_append] at hpost
  change (((start w).run (body cfg) ls).next (body cfg) l).world.store.lookup k n = _ at hpost
  generalize (start w).run (body cfg) ls = s at hs hpre hpost
  rcases writing_store hs hlast with hsame | ⟨t, c, th, op, rfl, hcall, hg, hch⟩
  · rw [hsame, hpre] at hpost
    exact absurd (Prod.mk.inj (Option.some.inj hpost)).2.symm hne
  · rcases change_record hch k n with
      hsame | ⟨o, -, hnone, -⟩ | ⟨cur', r₀, o, -, hcur, hr, -, hnew⟩ | ⟨cur', r₀, -, -, -, hgone⟩
    · rw [hsame, hpre] at hpost
      exact absurd (Prod.mk.inj (Option.some.inj hpost)).2.symm hne
    · rw [hnone] at hpre
      cases hpre
    · obtain ⟨rfl, rfl⟩ := Prod.mk.inj (Option.mem_unique hpre hcur)
      obtain ⟨rfl, rfl⟩ := Prod.mk.inj (Option.mem_unique hpost hnew)
      exact ⟨t, c, th, rfl, hcall.1, hg, ownedWrite_of_edit hg hr _⟩
    · rw [hgone] at hpost
      cases hpost

section Runs

def storedWeb (replicas rev : Int) : Workload where
  metadata := { name := "web", uid := 1, createdUnix := 7, resourceVersion := rev }
  spec := { replicas := replicas }

def storedWorld : World := ⟨(Store.empty.put 7 .workload (storedWeb 1 0) revCreate).2, 7 * second⟩

/- A second Scale commits between the first one's Get and Put, whose Put is then refused. -/
def racingScales : List Step :=
  [.spawn (.scale "web" 3), .step 0 {}, .spawn (.scale "web" 5), .step 1 {}, .step 1 {}, .step 0 {}, .step 0 {}]

theorem write_owned_scaled : ∃ t c th, Label.step t c = (.step 0 {} : Step) ∧
    (plainRun storedWorld racingScales).threads[t]? = some th ∧
    th.tag.Writer ∧ OwnedWrite (k := .workload) th.hist th.tag (storedWeb 5 3) (storedWeb 3 3) := by
  have hpre : (plainRun storedWorld racingScales).world.store.lookup .workload "web" =
      some (storedWeb 5 2, 2) := by
    decide +kernel
  have hpost : (plainRun storedWorld (racingScales ++ [.step 0 {}])).world.store.lookup .workload "web" =
      some (storedWeb 3 3, 3) := by
    decide +kernel
  obtain ⟨t, c, th, hl, hth, hw, ho⟩ := write_owned plainConfig storedWorld racingScales (.step 0 {})
    (along_of_check (body plainConfig) (fun _ _ h => admits_mono (fun _ => writer_of_modelled) (admits_of_check h)) _ _
      (by decide +kernel)) hpre hpost (by decide)
  exact ⟨t, c, th, hl.symm, hth, hw, ho⟩

end Runs

end Klite
