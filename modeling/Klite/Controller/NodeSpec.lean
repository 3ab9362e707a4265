import Klite.Controller.Node
import Klite.Controller.Scheduler
import Klite.Store.Listings

/-!
# What the scheduler and the node controller may do
-/

namespace Klite
open Lib

def Offered (nodes : List Node) (name : String) : Prop :=
  ∃ n ∈ nodes, n.metadata.name = name ∧ n.phase = .ready ∧ n.getStatus.unschedulable = false

def schedulerRights : Rights where
  create _ _ _ _ := False
  edit
    | .inst, h, _, cur, new => cur.spec.node = "" ∧
        (∃ insts, lastListed .inst h = some insts ∧ cur ∈ insts) ∧
        ((∃ nodes node, lastListed .node h = some nodes ∧ Offered nodes node ∧ new = boundTo cur node) ∨
          ∃ pin, new = explained cur (refusal pin))
    | _, _, _, _, _ => False
  remove _ _ _ _ := False

theorem bestNode_offered {pin : String} {nodes : List Node} {bound : List String} {n : Node}
    (h : bestNode pin nodes bound = some n) : Offered nodes n.metadata.name := by
  have hbest : BestOf pin bound nodes (some n) := h ▸ bestNode_best nodes
  obtain ⟨-, hready, hsched, -⟩ := schedulable_iff.mp hbest.2.1
  exact ⟨n, hbest.1, rfl, hready, hsched⟩

section Scheduler
variable {h : Log}

theorem obeys_placeOne {insts : List Instance} {nodes : List Node} (wls : List Workload)
    (hi : Listed h .inst insts) (hn : Listed h .node nodes) (p : Placement) (inst : Instance)
    (hm : inst ∈ insts) (hu : inst.spec.node = "") :
    Obeys schedulerRights (fun h' _ => SameLists h h') (placeOne wls nodes p inst) h := by
  unfold placeOne
  dsimp only
  split
  · refine follows_bind (P := fun h' _ => SameLists h h') ?_ fun _ _ _ hq => hq
    unfold explainPending
    split
    · exact sameLists_refl h
    · refine obeys_put (fun w ha => within_put (k := .inst) (hi.seen inst hm) ha rfl
        ⟨hu, ⟨insts, hi.last, hm⟩, Or.inr ⟨_, rfl⟩⟩) ?_
      intro c w r _ _
      cases r <;> exact sameLists_event nofun
  · rename_i n hbest
    refine follows_bind (P := fun h' _ => SameLists h h') ?_ ?_
    · refine obeys_put (fun w ha => within_put (k := .inst) (hi.seen inst hm) ha rfl
        ⟨hu, ⟨insts, hi.last, hm⟩, Or.inl ⟨nodes, _, hn.last, bestNode_offered hbest, rfl⟩⟩) ?_
      intro c w r _ _
      cases r <;> exact sameLists_event nofun
    · intro h' r _ hq
      cases r <;> exact hq

theorem obeys_schedulerReconcile : Abides schedulerRights schedulerReconcile h := by
  refine obeys_list (fun _ _ _ _ _ => trivial) ?_
  intro c₁ w₁ _ hr₁
  refine obeys_list (fun _ _ _ _ _ => trivial) ?_
  intro c₂ w₂ _ hr₂
  refine obeys_list (fun _ _ _ _ _ => trivial) ?_
  intro c₃ w₃ _ _
  have hinsts := listed_other (listed_other (listed_event hr₁ (h := h)) .node (by decide) c₂ w₂)
    .workload (by decide) c₃ w₃
  have hnodes := listed_other (listed_event hr₂ (h := klited.event c₁ (.list .inst) w₁ :: h))
    .workload (by decide) c₃ w₃
  refine follows_post (fun _ _ _ => trivial) (obeys_loop _ _ ?_)
  intro inst hi p h' hsame
  obtain ⟨hm, hu⟩ := List.mem_filter.mp hi
  exact obeys_placeOne _ (listed_same hinsts hsame) (listed_same hnodes hsame) p inst hm
    (of_decide_eq_true hu)

end Scheduler

theorem phaseTransition_frame {st st' : NodeStatus} {silence : Int} {count : ℕ} {pd : Bool}
    (h : phaseTransition st silence count pd = some st') :
    ∃ phase unschedulable, st' = { st with phase := phase, unschedulable := unschedulable } := by
  unfold phaseTransition at h
  split at h
  · exact ⟨_, _, (Option.some.inj h).symm⟩
  · split at h
    · exact ⟨_, _, (Option.some.inj h).symm⟩
    · split at h
      · exact ⟨_, _, (Option.some.inj h).symm⟩
      · cases h

theorem observedStatus_frame (st : NodeStatus) (silence : Int) (count : ℕ) (pd : Bool) :
    ∃ phase unschedulable, observedStatus st silence count pd =
      { st with phase := phase, unschedulable := unschedulable, instanceCount := int32 count } := by
  unfold observedStatus
  cases h : phaseTransition st silence count pd with
  | none => exact ⟨st.phase, st.unschedulable, rfl⟩
  | some st' =>
    obtain ⟨phase, unschedulable, rfl⟩ := phaseTransition_frame h
    exact ⟨phase, unschedulable, rfl⟩

theorem observedStatus_nodeIndex (st : NodeStatus) (silence : Int) (count : ℕ) (pd : Bool) :
    (observedStatus st silence count pd).nodeIndex = st.nodeIndex := by
  obtain ⟨phase, unschedulable, h⟩ := observedStatus_frame st silence count pd
  rw [h]

theorem phase_status (n : Node) (st : NodeStatus) : ({ n with status := some st } : Node).phase = st.phase :=
  rfl

def boundCount (insts : List Instance) (node : String) : ℕ :=
  insts.countP fun inst => inst.spec.node = node

def nodeRights : Rights where
  create _ _ _ _ := False
  edit
    | .node, h, _, cur, new => ∃ insts, lastListed .inst h = some insts ∧ ∃ silence,
        new = { cur with status := some (observedStatus (Node.getStatus cur) silence
          (boundCount insts cur.metadata.name) cur.pendingDelete) }
    | _, _, _, _, _ => False
  remove
    | .node, h, _, cur => Node.pendingDelete cur = true ∧
        ∃ insts, lastListed .inst h = some insts ∧ boundCount insts cur.metadata.name = 0
    | .inst, h, _, cur => ∃ insts, lastListed .inst h = some insts ∧ cur ∈ insts
    | _, _, _ , _ => False

section Node
variable {h : Log} {insts : List Instance}

theorem obeys_evacuateLost (hi : Listed h .inst insts) (node : Node) (st : NodeStatus)
    (silence : Int) (errs : List String) : Obeys nodeRights (fun h' _ => SameLists h h')
      (evacuateLost insts node st silence errs) h := by
  unfold evacuateLost
  split
  · refine obeys_loop _ _ ?_
    intro inst hm errs' h' hsame
    have hl := listed_same hi hsame
    have hmem := (List.mem_filter.mp hm).1
    refine obeys_deleteIfRevision (fun w ha => within_remove (k := .inst) (hl.seen inst hmem) ha
      ⟨insts, hl.last, hmem⟩) ?_
    intro c w r _
    have hs : SameLists h' (klited.event c
        (.deleteIfRevision .inst inst.metadata.name inst.metadata.resourceVersion) w :: h') :=
      sameLists_event nofun
    cases r with
    | ok _ => exact hs
    | error e =>
      dsimp only
      split <;> exact hs
  · exact sameLists_refl h

section Seen
variable (hi : Listed h .inst insts) (node : Node) (hseen : Seen h .node node)
include hi node hseen

theorem obeys_removeNode (hp : node.pendingDelete) (h0 : boundCount insts node.metadata.name = 0) (errs : List String) :
    Obeys nodeRights (fun h' _ => SameLists h h') (removeNode node errs) h := by
  refine obeys_deleteIfRevision (fun w ha => within_remove (k := .node) hseen ha
    ⟨hp, insts, hi.last, h0⟩) ?_
  intro c w r _
  have hs : SameLists h (klited.event c
      (.deleteIfRevision .node node.metadata.name node.metadata.resourceVersion) w :: h) :=
    sameLists_event nofun
  cases r with
  | ok _ => exact hs
  | error e =>
    dsimp only
    split <;> exact hs

theorem obeys_writeObserved (silence : Int) (errs : List String) : Obeys nodeRights (fun h' _ => SameLists h h')
      (writeObserved insts node silence (boundCount insts node.metadata.name) errs) h := by
  unfold writeObserved
  dsimp only
  split
  · exact obeys_evacuateLost hi node _ silence errs
  · refine obeys_put (fun w ha => within_put (k := .node) hseen ha rfl
      ⟨insts, hi.last, silence, rfl⟩) ?_
    intro c w r _ _
    have hs : ∀ o, SameLists h (klited.event c (.put .node o node.metadata.resourceVersion) w :: h) :=
      fun o => sameLists_event nofun
    have hev := fun o st => follows_post
      (fun h' _ hq => sameLists_trans (hs o) hq)
      (obeys_evacuateLost (listed_same hi (hs o)) node st silence errs)
    cases r with
    | ok _ => exact hev _ _
    | error e =>
      dsimp only
      split
      · exact hev _ _
      · exact hs _

theorem obeys_reconcileNode (errs : List String) :
    Obeys nodeRights (fun h' _ => SameLists h h') (reconcileNode insts errs node) h := by
  unfold reconcileNode
  dsimp only
  split
  · rename_i hc
    exact obeys_removeNode hi node hseen hc.1 hc.2 errs
  · refine follows_bind (P := fun h' _ => SameLists h h') ?_ ?_
    · unfold silenceOf
      split
      · refine obeys_quiet rfl ?_
        intro c w t _ _
        exact sameLists_event nofun
      · exact sameLists_refl h
    · intro h' silence _ hs
      exact follows_post (fun h'' _ hq => sameLists_trans hs hq)
        (obeys_writeObserved (listed_same hi hs) node (seen_mono hs.1 hseen) silence errs)

end Seen

theorem obeys_nodeReconcile : Abides nodeRights nodeReconcile h := by
  refine obeys_list (fun _ _ _ _ _ => trivial) ?_
  intro c₁ w₁ _ hr₁
  refine obeys_list (fun _ _ _ _ _ => trivial) ?_
  intro c₂ w₂ _ hr₂
  have hnodes := listed_other (listed_event hr₁ (h := h)) .inst (by decide) c₂ w₂
  refine follows_post (fun _ _ _ => trivial) (obeys_loop _ _ ?_)
  intro node hm errs h' hsame
  exact obeys_reconcileNode (listed_same (listed_event hr₂) hsame) node
    ((listed_same hnodes hsame).seen node hm) errs

end Node

end Klite
