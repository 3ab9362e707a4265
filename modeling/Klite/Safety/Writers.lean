import Klite.Controller.Ingress
import Klite.Controller.Vip
import Klite.System

/-!
# Everything that writes

The handlers and controllers of the control plane together with passes of the VIP
and the ingress controller, which run as other clients of the store. An allocator
creates and deletes allocations and never edits an object.
-/

namespace Klite
open Lib

def isAllocation (k : Kind) : Bool := k = .vipAllocation ∨ k = .ingressAllocation

def allocatorRights : Rights where
  create k _ _ _ := isAllocation k
  edit _ _ _ _ _ := False
  remove k _ _ _ := isAllocation k

section Allocators
variable {h : Log} {S D : Type} {k : Kind}

theorem obeys_release (hk : isAllocation k) (name : String) (rev : Int) (st : AllocState S D) :
    Abides allocatorRights (release k name rev st) h := by
  refine obeys_deleteIfRevision (fun _ _ _ _ => hk) ?_
  intro c w r _
  cases r with
  | ok _ => trivial
  | error e =>
    dsimp only
    split <;> trivial

theorem obeys_createAllocation (hk : isAllocation k) (o : k.Obj) (st : AllocState S D) :
    Abides allocatorRights (createAllocation k o st) h := by
  refine obeys_put (fun _ _ => Or.inl ⟨rfl, hk⟩) ?_
  intro c w r _ _
  cases r with
  | ok _ => trivial
  | error e =>
    dsimp only
    split <;> trivial

theorem obeys_repairPass {f : AllocState S D → k.Obj → Code (AllocState S D)}
    {g : AllocState S D → S → Code (AllocState S D)}
    (hf : ∀ st o h', Abides allocatorRights (f st o) h')
    (hg : ∀ st spec h', Abides allocatorRights (g st spec) h')
    (want : Std.ExtTreeMap String S) (allocs : List k.Obj) :
    Abides allocatorRights (repairPass f g want allocs) h := by
  refine follows_bind (follows_foldlM _ (fun _ _ _ => True) (fun o _ h' st _ => hf st o h') _ _ h trivial) ?_
  intro h' st _ _
  refine follows_bind
    (follows_foldlM _ (fun _ _ _ => True) (fun e _ h'' st _ => hg st e.2 h'') _ _ h' trivial) ?_
  exact fun _ _ _ _ => trivial

theorem obeys_vipReconcileAllocation (st : VipState) (alloc : VIPAllocation) :
    Abides allocatorRights (vipReconcileAllocation st alloc) h := by
  unfold vipReconcileAllocation
  dsimp only
  split
  · exact obeys_release rfl _ _ _
  · split
    · exact obeys_release rfl _ _ _
    · split
      · exact obeys_release rfl _ _ _
      · trivial

theorem obeys_vipReconcile : Abides allocatorRights vipReconcile h := by
  refine obeys_list (fun _ _ _ _ _ => trivial) fun _ _ _ _ => ?_
  refine obeys_list (fun _ _ _ _ _ => trivial) fun _ _ _ _ => ?_
  refine obeys_list (fun _ _ _ _ _ => trivial) fun _ _ _ _ => ?_
  refine obeys_repairPass (fun st o h' => obeys_vipReconcileAllocation st o) (fun st spec h' => ?_) _ _
  unfold vipAllocate
  split
  · trivial
  · exact obeys_createAllocation rfl _ _

theorem obeys_ingressReconcileAllocation (base : Int) (index : Indexes) (st : IngressState)
    (alloc : IngressAllocation) : Abides allocatorRights
      (ingressReconcileAllocation base index st alloc) h := by
  unfold ingressReconcileAllocation
  dsimp only
  split
  · exact obeys_release rfl _ _ _
  · split
    · exact obeys_release rfl _ _ _
    · split
      · exact obeys_release rfl _ _ _
      · split
        · exact obeys_release rfl _ _ _
        · trivial

theorem obeys_ingressReconcile (base : Int) : Abides allocatorRights (ingressReconcile base) h := by
  refine obeys_list (fun _ _ _ _ _ => trivial) fun _ _ _ _ => ?_
  refine obeys_list (fun _ _ _ _ _ => trivial) fun _ _ _ _ => ?_
  refine obeys_list (fun _ _ _ _ _ => trivial) fun _ _ _ _ => ?_
  refine obeys_list (fun _ _ _ _ _ => trivial) fun _ _ _ _ => ?_
  refine obeys_repairPass (fun st o h' => obeys_ingressReconcileAllocation base _ st o) (fun st spec h' => ?_) _ _
  unfold ingressAllocate
  split
  · trivial
  · split
    · trivial
    · exact obeys_createAllocation rfl _ _

end Allocators

inductive AllocatorPass : Code Unit → Prop where
  | vip : AllocatorPass (do let _ ← vipReconcile; pure ())
  | ingress (base : Int) : AllocatorPass (do let _ ← ingressReconcile base; pure ())

-- A handler, a controller pass, or an allocator's pass.
def Call.Writer : Call → Prop
  | .other p => AllocatorPass p
  | _ => True

theorem admits_mono {A B : Call → Prop} (hab : ∀ g, A g → B g) {l : Step} (hl : Admits A l) : Admits B l := by
  cases l with
  | spawn g => exact hab g hl
  | move m => exact hl
  | step t c => trivial
  | abandon t => trivial

theorem writer_of_modelled {g : Call} (h : g.modelled) : g.Writer := by
  cases g with
  | other p => cases h
  | _ => trivial

section Writers
variable (cfg : Config)

def writerRights : Call → Rights
  | .other _ => allocatorRights
  | g => rights cfg g

def writerSpec (g : Call) : Log → World → Op → Prop := Within (writerRights cfg g)

theorem follows_writer {g : Call} (hg : g.Writer) (h : Log) :
    Follows klited (writerSpec cfg g) (fun _ _ => True) (body cfg g) h := by
  cases g with
  | other p =>
    refine follows_bind (P := fun _ _ => True) ?_ fun _ _ _ _ => trivial
    cases hg with
    | vip => exact follows_bind obeys_vipReconcile fun _ _ _ _ => trivial
    | ingress base => exact follows_bind (obeys_ingressReconcile base) fun _ _ _ _ => trivial
  | _ => exact follows_mono _ h (fun _ _ _ hs => hs rfl) (fun _ _ _ => trivial) (follows_body cfg _ h)

structure Writing (s : Klited) : Prop where
  recorded : Recorded s
  conforms : Conforms (writerSpec cfg) (fun _ _ _ => True) s
  running : Running Call.Writer s

variable {cfg} {s : Klited} {l : Step}

theorem writing_start (w : World) : Writing cfg (start w) :=
  ⟨fun th hth => (by cases hth), fun th hth => (by cases hth), fun th hth => (by cases hth)⟩

theorem writing_next (hs : Writing cfg s) (hl : Admits Call.Writer l) : Writing cfg (s.next (body cfg) l) := by
  refine ⟨recorded_next l hs.recorded, conforms_next l (fun g hg => ?_) hs.recorded hs.conforms,
    running_next hs.running hl⟩
  rw [hg] at hl
  exact follows_writer cfg hl []

theorem writing_run (cfg : Config) (w : World) (ls : List Step)
    (hl : Along (body cfg) (fun _ l => Admits Call.Writer l) (start w) ls) :
    Writing cfg ((start w).run (body cfg) ls) :=
  run_invariant (body cfg) (Writing cfg) _ (fun _ _ hs hl => writing_next hs hl) _ ls (writing_start w) hl

theorem writing_store (hs : Writing cfg s) (hl : Admits Call.Writer l) :
    (s.next (body cfg) l).world.store = s.world.store ∨ ∃ t c th op, l = .step t c ∧ s.Calls t th op ∧ th.tag.Writer ∧
      Change (writerRights cfg th.tag) th.hist s.world op (s.next (body cfg) l).world.store := by
  rcases next_world (body cfg) s l with he | ⟨m, rfl, -⟩ | ⟨t, c, th, op, rfl, hcall, he⟩
  · exact Or.inl (by rw [he])
  · obtain ⟨d, rfl⟩ := hl
    exact Or.inl rfl
  · have hw := conforms_call hs.recorded hs.conforms hcall
    refine Or.inr ⟨t, c, th, op, rfl, hcall, hs.running th (List.mem_of_getElem? hcall.1), ?_⟩
    rw [he]
    exact exec_change c hw

end Writers

end Klite
