import Klite.System

/-!
# Who writes instances

The only writers of instance records are the workload controller, the scheduler, agents'
reports and the callers that remove them.
-/

namespace Klite
open Lib

section Writers
variable {cfg : Config} {call : Call} {h : Log} {w : World}

inductive InstEdit (call : Call) (h : Log) (cur new : Instance) : Prop where
  | report (p : Principal) (req : ReportStatusRequest) (hcall : call = .reportStatus p req)
      (hedit : ReportInstanceEdit req cur new)
  | retired (order : ℕ → List String → List String) (passes : ℕ) (reason : String)
      (hcall : call = .workload order passes) (hready : cur.phase = .ready)
      (hnew : new = markedRetired cur reason)
  | placed (nodes : List Node) (node : String) (hcall : call = .scheduler) (hnode : cur.spec.node = "")
      (hlast : lastListed .node h = some nodes) (hoff : Offered nodes node) (hnew : new = boundTo cur node)
  | refused (pin : String) (hcall : call = .scheduler) (hnode : cur.spec.node = "")
      (hnew : new = explained cur (refusal pin))

theorem inst_edit (hm : call.modelled) {cur new : Instance}
    (hr : (rights cfg call).edit .inst h w cur new) : InstEdit call h cur new := by
  cases call with
  | reportStatus p req => exact .report p req rfl hr
  | workload order passes =>
    obtain ⟨hready, _, _, _, _, reason, -, -, hnew⟩ := hr
    exact .retired order passes reason rfl hready hnew
  | scheduler =>
    obtain ⟨hnode, -, ⟨nodes, node, hlast, hoff, hnew⟩ | ⟨pin, hnew⟩⟩ := hr
    · exact .placed nodes node rfl hnode hlast hoff hnew
    · exact .refused pin rfl hnode hnew
  | apply decoded =>
    obtain ⟨o, ⟨hk, -⟩, -⟩ := hr
    cases hk
  | other p => cases hm
  | _ => exact hr.elim

theorem inst_create (hm : call.modelled) {o : Instance} (hr : (rights cfg call).create .inst h w o) :
    o.spec.node = "" ∧ o.phase = .pending ∧ o.metadata.uid = 0 := by
  cases call with
  | workload order passes =>
    obtain ⟨wl, container, hash, g, name, -, -, rfl⟩ := hr
    exact ⟨rfl, rfl, rfl⟩
  | apply decoded =>
    obtain ⟨hk, -⟩ := hr
    cases hk
  | other p => cases hm
  | _ => exact hr.elim

theorem node_remove (hm : call.modelled) {cur : Node} (hr : (rights cfg call).remove .node h w cur) :
    call = .nodeController ∧ ∃ insts, lastListed .inst h = some insts ∧ boundCount insts cur.metadata.name = 0 := by
  cases call with
  | nodeController =>
    obtain ⟨-, hcount⟩ := hr
    exact ⟨rfl, hcount⟩
  | delete req => exact absurd rfl hr
  | other p => cases hm
  | _ => exact hr.elim

end Writers

theorem report_keeps {req : ReportStatusRequest} {cur new : Instance}
    (h : ReportInstanceEdit req cur new) : new.spec = cur.spec ∧ new.metadata = cur.metadata := by
  obtain ⟨-, u, -, st, -, -, -, -, rfl⟩ := h
  exact ⟨rfl, rfl⟩

theorem instEdit_metadata {call : Call} {h : Log} {cur new : Instance} (he : InstEdit call h cur new) :
    new.metadata = cur.metadata := by
  cases he with
  | report p req hcall hedit => exact (report_keeps hedit).2
  | retired order passes reason hcall hready hnew => rw [hnew]; rfl
  | placed nodes node hcall hnode hlast hoff hnew => rw [hnew]; rfl
  | refused pin hcall hnode hnew => rw [hnew]; rfl

theorem instEdit_workload {call : Call} {h : Log} {cur new : Instance} (he : InstEdit call h cur new) :
    new.spec.workload = cur.spec.workload := by
  cases he with
  | report p req hcall hedit => rw [(report_keeps hedit).1]
  | retired order passes reason hcall hready hnew => rw [hnew]; rfl
  | placed nodes node hcall hnode hlast hoff hnew => rw [hnew]; rfl
  | refused pin hcall hnode hnew => rw [hnew]; rfl

theorem phase_of_status {i j : Instance} (h : i.status = j.status) : i.phase = j.phase := by
  unfold Instance.phase Instance.getStatus
  rw [h]

theorem boundTo_phase (inst : Instance) (node : String) : (boundTo inst node).phase = inst.phase ∨
      (inst.phase = .unspecified ∧ (boundTo inst node).phase = .pending) := by
  cases h : inst.status with
  | none =>
    refine Or.inr ?_
    unfold boundTo Instance.phase Instance.getStatus
    rw [h]
    exact ⟨rfl, rfl⟩
  | some st =>
    refine Or.inl ?_
    unfold boundTo Instance.phase Instance.getStatus
    rw [h]
    rfl

def phaseAt (w : World) (n : String) : Option NodePhase := (w.store.lookup .node n).map (·.1.phase)

theorem phaseAt_of_lookup {w : World} {n : String} {o : Node} {r : Int}
    (h : w.store.lookup .node n = some (o, r)) : phaseAt w n = some o.phase := by
  unfold phaseAt
  rw [h]
  rfl

section Next
variable {cfg : Config} {A : Call → Prop} {s : Klited} {l : Step}

theorem next_uids (hsound : Sound cfg s) (hrun : Running A s) (hmod : ∀ g, A g → g.modelled)
    (hl : Admits A l) : s.world.store.uids ≤ (s.next (body cfg) l).world.store.uids := by
  rcases next_store hsound hrun hmod hl with hs | ⟨t, c, th, op, rfl, -, -, -, -, hch⟩
  · rw [hs]
  · exact change_uids hch

def SameInstance (inst new : Instance) : Prop :=
  inst.spec = new.spec ∧ inst.status = new.status ∧ inst.metadata.uid = new.metadata.uid ∧
    inst.metadata.name = new.metadata.name

theorem next_instance (hsound : Sound cfg s) (hrun : Running A s) (hmod : ∀ g, A g → g.modelled)
    (hl : Admits A l) {inst : Instance} (hi : Holds (s.next (body cfg) l).world.store .inst inst) :
    Holds s.world.store .inst inst ∨
    (inst.spec.node = "" ∧ inst.phase = .pending ∧ inst.metadata.uid = s.world.store.uids + 1 ∧
      (s.next (body cfg) l).world.store.uids = s.world.store.uids + 1 ∧
      ∃ t c th o, l = .step t c ∧ s.Calls t th (.put .inst o revCreate) ∧ inst.metadata.name = o.metadata.name) ∨
    (∃ t c th cur new, l = .step t c ∧ s.Calls t th (.put .inst new cur.metadata.resourceVersion) ∧
      A th.tag ∧ Holds s.world.store .inst cur ∧ InstEdit th.tag th.hist cur new ∧ SameInstance inst new) := by
  rcases next_store hsound hrun hmod hl with hs | ⟨t, c, th, op, rfl, hcall, hA, -, -, hch⟩
  · rw [hs] at hi
    exact Or.inl hi
  · rcases change_holds hch hi with hold | ⟨o, rfl, hnone, hr, rfl⟩ | ⟨cur, o, rfl, hcur, hr, -, rfl⟩
    · exact Or.inl hold
    · obtain ⟨hn, hp, hu⟩ := inst_create (hmod _ hA) hr
      have hname : (metaOf (k := .inst) (stamp (minted s.world.store s.world.unix o)
          (s.world.store.rev + 1))).name = (metaOf (k := .inst) o).name := by
        rw [metaOf_stamp, metaOf_minted]
        exact stampNew_name _ _ _
      have hnew := change_minted hch hu (by
        unfold Holds at hi
        rw [hname] at hi
        rw [hi, hnone]
        simp)
      exact Or.inr (Or.inl ⟨hn, hp, hnew.1, hnew.2, t, c, th, o, rfl, hcall, hname⟩)
    · exact Or.inr (Or.inr ⟨t, c, th, cur, o, rfl, hcall, hA, hcur, inst_edit (hmod _ hA) hr,
        rfl, rfl, rfl, rfl⟩)

end Next

def Bound (w : World) (n : String) : Prop :=
  ∃ inst : Instance, Holds w.store .inst inst ∧ inst.spec.node = n

theorem not_bound_of_count {w : World} {n : String} (h : boundCount (w.store.listing .inst) n = 0) : ¬ Bound w n := by
  rintro ⟨inst, hi, hn⟩
  have hc := List.countP_eq_zero.mp h inst (mem_listing.mpr hi)
  simp [hn] at hc

end Klite
