import Klite.Lib.Runs
import Klite.Sim.Cluster

/-!
# The simulator's watch stream is complete

A store that folds what the simulator calls it with holds the simulator's objects.
-/

namespace Klite.Sim
open Lib

theorem Snapshot.get_change_self (S : Snapshot) (type : EventType) (rev : Int) (k : Kind) (o : Obj k) :
    ((S.applyEvent (.change type rev k o)).objects k)[o.name]? = if type = .deleted then none else some o := by
  unfold Snapshot.applyEvent
  dsimp only
  rw [Function.update_self]
  split
  · rw [Table.get_erase, if_pos rfl]
  · rw [Table.get_insert, if_pos rfl]

variable {name : String}

theorem Snapshot.get_change_ne (S : Snapshot) (type : EventType) (rev : Int) {k k' : Kind} (o : Obj k)
    (h : ¬ (k' = k ∧ name = o.name)) :
    ((S.applyEvent (.change type rev k o)).objects k')[name]? = (S.objects k')[name]? := by
  unfold Snapshot.applyEvent
  dsimp only
  by_cases hk : k' = k
  · subst hk
    have hn : o.name ≠ name := fun hn => h ⟨rfl, hn.symm⟩
    rw [Function.update_self]
    split
    · rw [Table.get_erase, if_neg hn]
    · rw [Table.get_insert, if_neg hn]
  · rw [Function.update_of_ne hk]

namespace Cluster

/-- The store has the objects of the cluster, kind by kind and name by name. -/
def Mirrors (S : Snapshot) (s : Cluster) : Prop := ∀ k name, (S.objects k)[name]? = s.get k name

def Mirrored (s : Cluster) : Prop := ∀ S ∈ s.watchers, Mirrors S s

/-- An event is owed for one entry at most. -/
def Owes (k : Kind) (name : String) (s : Cluster) : Prop :=
  ∀ S ∈ s.watchers, ∀ k' name', ¬ (k' = k ∧ name' = name) → (S.objects k')[name']? = s.get k' name'

/-! ### The entries after a change -/

variable {k' : Kind}

section Entries
variable {s : Cluster} {k : Kind}

theorem name_of_get {o : Obj k} (h : s.get k name = some o) : o.name = name := Shelf.name_of_get h

theorem get_update_self (m : Shelf k) (name : String) :
    ({ s with objects := Function.update s.objects k m } : Cluster).get k name = m.get name := by
  unfold get
  dsimp only
  rw [Function.update_self]

theorem get_update_ne (m : Shelf k) (hm : ∀ name' ≠ name, m.get name' = s.get k name') {name' : String}
    (h : ¬ (k' = k ∧ name' = name)) :
    ({ s with objects := Function.update s.objects k m } : Cluster).get k' name' = s.get k' name' := by
  by_cases hk : k' = k
  · subst hk
    rw [get_update_self]
    exact hm name' fun hn => h ⟨rfl, hn⟩
  · unfold get
    dsimp only
    rw [Function.update_of_ne hk]

theorem get_write_self (o : Obj k) (h : (s.get k o.name).isSome) : (s.write o).get k o.name = some o :=
  (get_update_self _ _).trans ((Shelf.get_replace o o.name).trans (if_pos ⟨rfl, h⟩))

theorem get_write_none (o : Obj k) (h : s.get k o.name = none) : (s.write o).get k o.name = none := by
  have habsent : ¬ (o.name = o.name ∧ (s.objects k).has o.name) := by
    rintro ⟨-, hhas⟩
    have hsome : (s.get k o.name).isSome := hhas
    rw [h] at hsome
    cases hsome
  exact (get_update_self _ _).trans (((Shelf.get_replace o o.name).trans (if_neg habsent)).trans h)

theorem get_write_ne (o : Obj k) (h : ¬ (k' = k ∧ name = o.name)) : (s.write o).get k' name = s.get k' name := by
  refine get_update_ne ((s.objects k).replace o) (fun name' hn => ?_) h
  rw [Shelf.get_replace, if_neg fun he => hn he.1.symm]
  rfl

end Entries

/-! ### What is owed is paid -/

variable {type : EventType}

section Owing
variable {s : Cluster} {k : Kind} {o : Obj k}

theorem Owes.emit (h : Owes k o.name s) (hp : (s.get k o.name).isSome ↔ type ≠ .deleted) :
    Mirrored (s.emit type o) := by
  intro S' hS' k' name'
  obtain ⟨S, hS, rfl⟩ := List.mem_map.mp hS'
  have hget : (s.emit type o).get k' name' = (s.write (o.withRevision (s.rev + 1))).get k' name' := rfl
  rw [hget]
  by_cases he : k' = k ∧ name' = o.name
  · obtain ⟨rfl, rfl⟩ := he
    refine (Snapshot.get_change_self S type (s.rev + 1) k' (o.withRevision (s.rev + 1))).trans ?_
    by_cases hd : type = .deleted
    · have hnone : s.get k' o.name = none := by
        rw [← Option.not_isSome_iff_eq_none, hp]
        exact fun hne => hne hd
      rw [if_pos hd]
      exact (get_write_none (o.withRevision (s.rev + 1)) hnone).symm
    · rw [if_neg hd]
      exact (get_write_self (o.withRevision (s.rev + 1)) (hp.mpr hd)).symm
  · refine (Snapshot.get_change_ne S type (s.rev + 1) (o.withRevision (s.rev + 1)) he).trans ?_
    rw [get_write_ne (o.withRevision (s.rev + 1)) he]
    exact h S hS k' name' he

end Owing

/-! ### Steps that leave nothing owed -/

/-- Stores that mirror the one cluster mirror the other, and none is lost. -/
structure Follows (s s' : Cluster) : Prop where
  mirrored : Mirrored s → Mirrored s'
  watchers : s'.watchers.length = s.watchers.length

theorem Follows.refl (s : Cluster) : Follows s s := ⟨id, rfl⟩

theorem Follows.trans {s s' s'' : Cluster} (h : Follows s s') (h' : Follows s' s'') : Follows s s'' :=
  ⟨h'.mirrored ∘ h.mirrored, h'.watchers.trans h.watchers⟩

/-- The objects of one kind only are changed. -/
structure Touches (k : Kind) (s s' : Cluster) : Prop extends Follows s s' where
  frame : ∀ k' ≠ k, s'.objects k' = s.objects k'

section Steps
variable {k : Kind} {s s' s'' : Cluster}

theorem Touches.refl (s : Cluster) : Touches k s s := ⟨.refl s, fun _ _ => rfl⟩

theorem Touches.trans (h : Touches k s s') (h' : Touches k s' s'') : Touches k s s'' :=
  ⟨h.toFollows.trans h'.toFollows, fun k' hk => (h'.frame k' hk).trans (h.frame k' hk)⟩

theorem Touches.get_ne (h : Touches k s s') (k' : Kind) (hk : k' ≠ k) (name : String) : s'.get k' name = s.get k' name := by
  unfold get
  rw [h.frame k' hk]

theorem Touches.quiet (ho : s'.objects = s.objects) (hw : s'.watchers = s.watchers) : Touches k s s' := by
  refine ⟨⟨fun h S hS k' name => ?_, by rw [hw]⟩, fun k' _ => by rw [ho]⟩
  rw [hw] at hS
  unfold get
  rw [ho]
  exact h S hS k' name

theorem quiet_after {ms : ℚ} {key : String} {run : Job} : Touches k s (s.after ms key run) := .quiet rfl rfl

theorem quiet_cancel {key : String} : Touches k s (s.cancel key) := .quiet rfl rfl

theorem quiet_setMeta {m : InstanceMeta} : Touches k s (s.setMeta name m) := .quiet rfl rfl

theorem objects_metaOf (name : String) : (s.metaOf name).2.objects = s.objects := by
  unfold metaOf
  split <;> rfl

theorem watchers_metaOf (name : String) : (s.metaOf name).2.watchers = s.watchers := by
  unfold metaOf
  split <;> rfl

theorem quiet_metaOf (name : String) : Touches k s (s.metaOf name).2 := .quiet (objects_metaOf name) (watchers_metaOf name)

theorem get_metaOf (name name' : String) : (s.metaOf name).2.get k name' = s.get k name' := by
  unfold get
  rw [objects_metaOf]

/-- The map of one kind is changed in one entry, perhaps with other things that no watcher sees, and the entry's
event is sent. -/
theorem Touches.paid {o : Obj k} {m : Shelf k} (ho : s'.objects = Function.update s.objects k m)
    (hw : s'.watchers = s.watchers) (hm : ∀ name ≠ o.name, m.get name = s.get k name)
    (hp : (m.get o.name).isSome ↔ type ≠ .deleted) : Touches k s (s'.emit type o) := by
  have hget (k' : Kind) (name : String) :
      s'.get k' name = ({ s with objects := Function.update s.objects k m } : Cluster).get k' name := by
    unfold get
    rw [ho]
  refine ⟨⟨fun h => Owes.emit ?_ ?_, ?_⟩, fun k' hk => ?_⟩
  · intro S hS k' name' he
    rw [hw] at hS
    rw [hget, get_update_ne m hm he]
    exact h S hS k' name'
  · rw [hget, get_update_self]
    exact hp
  · show (s'.watchers.map _).length = _
    rw [List.length_map, hw]
  · refine (Function.update_of_ne hk _ _).trans ?_
    rw [ho]
    exact Function.update_of_ne hk _ _

theorem Touches.changed {o : Obj k} (h : (s.get k o.name).isSome) (ho : s'.objects = (s.write o).objects)
    (hw : s'.watchers = s.watchers) : Touches k s (s'.emit .modified o) := by
  refine .paid ho hw (fun name hn => ?_) ?_
  · rw [Shelf.get_replace, if_neg fun he => hn he.1.symm]
    rfl
  · rw [Shelf.get_replace, if_pos ⟨rfl, h⟩]
    simp

theorem Touches.stored (o : Obj k) (ht : type ≠ .deleted) (ho : s'.objects = (s.set o).objects)
    (hw : s'.watchers = s.watchers) : Touches k s (s'.emit type o) := by
  refine .paid ho hw (fun name hn => ?_) ?_
  · rw [Shelf.get_set, if_neg hn.symm]
    rfl
  · rw [Shelf.get_set, if_pos rfl]
    simpa using ht

theorem Touches.dropped (o : Obj k) (ho : s'.objects = (s.delete k o.name).objects) (hw : s'.watchers = s.watchers) :
    Touches k s (s'.emit .deleted o) := by
  refine .paid ho hw (fun name hn => ?_) ?_
  · rw [Shelf.get_delete, if_neg hn.symm]
    rfl
  · rw [Shelf.get_delete, if_pos rfl]
    simp

theorem Touches.foldl {α : Type} {f : Cluster → α → Cluster} (hf : ∀ s a, Touches k s (f s a)) (l : List α) (s : Cluster) :
    Touches k s (l.foldl f s) := by
  induction l generalizing s with
  | nil => exact .refl s
  | cons a l ih => exact (hf s a).trans (ih _)

section Exceptions
theorem left_pure (s : Cluster) : left (pure s) = s := rfl

variable (R : Cluster → Cluster → Prop) (hrefl : ∀ s, R s s) (htrans : ∀ {s s' s''}, R s s' → R s' s'' → R s s'')
include htrans

theorem bind_left {x : Except Cluster Cluster} {f : Cluster → Except Cluster Cluster} (hx : R s (left x))
    (hf : ∀ s', R s' (left (f s'))) : R s (left (x >>= f)) := by
  cases x with
  | error s' => exact hx
  | ok s' => exact htrans hx (hf s')

include hrefl

theorem foldlM_left {α : Type} {f : Cluster → α → Except Cluster Cluster} (hf : ∀ s a, R s (left (f s a))) (l : List α)
    (s : Cluster) : R s (left (l.foldlM f s)) := by
  induction l generalizing s with
  | nil => exact hrefl s
  | cons a l ih =>
    rw [List.foldlM_cons]
    exact bind_left R htrans (hf s a) ih

end Exceptions

theorem isSome_changed {o : Obj k} (h : (s.get k o.name).isSome) :
    (((s.write o).emit .modified o).get k o.name).isSome := by
  have hwrite : ((s.write o).get k o.name).isSome := by
    rw [get_write_self o h]
    rfl
  have hemit := get_write_self (o.withRevision (s.rev + 1)) hwrite
  exact Option.isSome_of_eq_some hemit

end Steps

/-! ### The functions, one by one -/

section Allocations
variable {s : Cluster}

theorem createVip_touches (name : String) : Touches .vipAllocation s (s.createVip name) := by
  unfold createVip
  split
  · exact .refl s
  · exact .stored _ nofun rfl rfl

theorem reconcileVipAllocations_touches : Touches .vipAllocation s s.reconcileVipAllocations := by
  unfold reconcileVipAllocations
  refine .trans (.foldl (fun s o => ?_) _ _) (.foldl (fun s name => createVip_touches name) _ _)
  split
  · exact .refl s
  · exact .dropped o rfl rfl

theorem createIngress_touches (e : String × String × Obj .inst) : Touches .ingressAllocation s (s.createIngress e) := by
  unfold createIngress
  split
  · exact .refl s
  · split
    · exact .refl s
    · split
      · exact .refl s
      · exact .stored _ nofun rfl rfl

theorem reconcileIngressAllocations_touches : Touches .ingressAllocation s s.reconcileIngressAllocations := by
  unfold reconcileIngressAllocations
  refine .trans (.foldl (fun s o => ?_) _ _) (.foldl (fun s e => createIngress_touches e) _ _)
  split
  · exact .refl s
  · exact .dropped o rfl rfl

end Allocations

variable {k : Kind}

section Lifecycle
variable {t : SimTimings} {s : Cluster}

theorem isSome_of_get {o o' : Obj k} (h : s.get k name = some o) (hn : o'.name = o.name) :
    (s.get k o'.name).isSome := by
  rw [hn, name_of_get h, h]
  rfl

theorem createInstance_touches (wl : Obj .workload) : Touches .inst s (s.createInstance wl) := by
  unfold createInstance
  exact .stored _ nofun rfl rfl

variable (name)

theorem deleteInstance_touches : Touches .inst s (s.deleteInstance name) := by
  unfold deleteInstance
  split
  · exact .refl s
  · rename_i inst hget
    refine .dropped inst ?_ rfl
    rw [name_of_get hget]
    rfl

theorem startDrainOut_touches (wl : Option (Obj .workload)) : Touches .inst s (s.startDrainOut t name wl) := by
  unfold startDrainOut
  split
  · exact .refl s
  · rename_i inst hget
    split
    · exact .refl s
    · have hinst := (get_metaOf name name).trans hget
      refine .trans (.trans (quiet_metaOf name) ?_) quiet_after
      exact .changed (isSome_of_get hinst rfl) rfl rfl

theorem terminate_touches (graceMs : ℚ) : Touches .inst s (s.terminate name graceMs) := by
  unfold terminate
  split
  · exact .refl s
  · rename_i inst hget
    refine .trans ?_ quiet_after
    exact .changed (isSome_of_get hget rfl) rfl rfl

theorem probeAfter_touches (inst : Obj .inst) : Touches .inst s (left (s.probeAfter t name inst)) := by
  unfold probeAfter
  split
  · exact .refl s
  · exact .quiet rfl rfl

theorem containerStarted_touches : Touches .inst s (left (s.containerStarted t name)) := by
  unfold containerStarted
  split
  · exact .refl s
  · rename_i inst hget
    split
    · exact .refl s
    · refine .trans ?_ (probeAfter_touches name _)
      exact .changed (isSome_of_get hget rfl) rfl rfl

theorem becomeReady_touches : Touches .inst s (left (s.becomeReady name)) := by
  unfold becomeReady
  split
  · exact .refl s
  · rename_i inst hget
    split
    · exact .refl s
    · dsimp only
      set ready := inst.withStatus fun st => { st with phase := .ready }
      have hready (m : InstanceMeta) : Touches .inst s ((((s.write ready).metaOf name).2.setMeta name m).emit .modified ready) :=
        .changed (isSome_of_get hget rfl) (objects_metaOf name) (watchers_metaOf name)
      split
      · exact hready _
      · exact hready _

theorem restart_touches : Touches .inst s (left (s.restart t name)) := by
  unfold restart
  split
  · exact .refl s
  · rename_i inst hget
    split
    · exact .refl s
    · have hmeta : Touches .inst s (s.metaOf name).2 := quiet_metaOf name
      dsimp only
      split
      · exact hmeta.trans (startDrainOut_touches name _)
      · split
        · exact hmeta
        · split
          · exact hmeta
          · have hinst := (get_metaOf name name).trans hget
            refine .trans (hmeta.trans ?_) (probeAfter_touches name _)
            exact .changed (isSome_of_get hinst rfl) rfl rfl

theorem killInstance_touches : Touches .inst s (s.killInstance t name) := by
  unfold killInstance
  split
  · exact .refl s
  · rename_i inst hget
    split
    · exact .refl s
    · have hinst := (get_metaOf name name).trans hget
      refine .trans (.trans (.trans (quiet_metaOf name) ?_) quiet_setMeta) quiet_after
      exact .changed (isSome_of_get hinst rfl) rfl rfl

theorem infraUp_touches : Touches .node s (s.infraUp name) := by
  unfold infraUp
  split
  · exact .refl s
  · rename_i node hget
    exact Touches.changed (isSome_of_get hget rfl) rfl rfl

theorem cordonAndDrain_touches : Touches .node s (s.cordonAndDrain name) := by
  unfold cordonAndDrain
  split
  · exact .refl s
  · rename_i node hget
    split
    · exact .refl s
    · refine .trans ?_ (.foldl (fun s (inst : Obj .inst) => (quiet_metaOf inst.name).trans quiet_setMeta) _ _)
      exact .changed (isSome_of_get hget rfl) rfl rfl

theorem loseInstance_touches : Touches .inst s (s.loseInstance name) := by
  unfold loseInstance
  split
  · exact .refl s
  · rename_i inst hget
    split
    · exact deleteInstance_touches name
    · exact Touches.changed (isSome_of_get hget rfl) rfl rfl

theorem revive_touches : Touches .inst s (left (s.revive t name)) := by
  unfold revive
  split
  · exact restart_touches name
  · exact .refl s

theorem reschedule_touches : Touches .inst s (s.reschedule name) := by
  unfold reschedule
  split
  · exact .foldl (fun s (inst : Obj .inst) => deleteInstance_touches inst.name) _ _
  · exact .refl s

end Lifecycle

/-! ### The sweep over the nodes -/

section Sweep
variable {t : SimTimings} {s : Cluster} {name : String} {node : Obj .node} {st : NodeStatus}

/-- The node is still there after its heartbeat, so that an event for it brings nothing back. -/
def Beaten (s : Cluster) (name : String) : Except Cluster (Obj .node × Cluster) → Prop
  | .error s' => Follows s s'
  | .ok (node, s') => Follows s s' ∧ node.name = name ∧ (s'.get .node name).isSome

theorem comeBack_beaten (hget : s.get .node name = some node) : Beaten s name (s.comeBack t name node st) := by
  have hnode : node.name = name := name_of_get hget
  unfold comeBack
  dsimp only
  set back := node.withNodeStatus { st with phase := if st.unschedulable.getD false then .draining else .ready }
  have hback : (s.get .node back.name).isSome := isSome_of_get hget rfl
  have hname : back.name = name := hnode
  set s₁ := ((s.write back).emit .modified back).cancel ("reschedule:" ++ name)
  have h₁ : Touches .node s s₁ := .trans (.changed hback rfl rfl) quiet_cancel
  have hhere : (s₁.get .node name).isSome := hname ▸ isSome_changed hback
  have hfold := foldlM_left (Touches .inst) Touches.refl Touches.trans
    (fun s (inst : Obj .inst) => revive_touches (t := t) inst.name) (s₁.instancesOn name) s₁
  cases hr : (s₁.instancesOn name).foldlM (fun s inst => s.revive t inst.name) s₁ with
  | error s' =>
    rw [hr] at hfold
    exact h₁.toFollows.trans hfold.toFollows
  | ok s' =>
    rw [hr] at hfold
    refine ⟨h₁.toFollows.trans hfold.toFollows, hname, ?_⟩
    have hframe : s'.get .node name = s₁.get .node name := hfold.get_ne .node nofun name
    rw [hframe]
    exact hhere

theorem goDown_beaten (hget : s.get .node name = some node) : Beaten s name (.ok (s.goDown t name node st)) := by
  have hnode : node.name = name := name_of_get hget
  unfold goDown
  dsimp only
  set down := node.withNodeStatus { st with phase := .notReady }
  have hdown : (s.get .node down.name).isSome := isSome_of_get hget rfl
  have hname : down.name = name := hnode
  set s₁ := (s.write down).emit .modified down
  have h₁ : Touches .node s s₁ := .changed hdown rfl rfl
  have hhere : (s₁.get .node name).isSome := hname ▸ isSome_changed hdown
  have hfold := Touches.foldl (fun s (inst : Obj .inst) => loseInstance_touches inst.name) (s₁.instancesOn name) s₁
  have hlost : Touches .inst s₁ (after _ t.rescheduleGraceMs ("reschedule:" ++ name) (.reschedule name)) := hfold.trans quiet_after
  refine ⟨h₁.toFollows.trans hlost.toFollows, hname, ?_⟩
  rw [hlost.get_ne .node nofun]
  exact hhere

theorem beat_beaten {agent : AgentState} (hget : s.get .node name = some node) :
    Beaten s name (s.beat t name agent node st) := by
  have hsome : (s.get .node name).isSome := Option.isSome_of_eq_some hget
  unfold beat
  split
  · set s₁ : Cluster := { s with agents := s.agents.set name { agent with lastBeat := s.now } }
    have h₁ : Follows s s₁ := (Touches.quiet rfl rfl : Touches .node s s₁).toFollows
    dsimp only
    split
    · have hback : Beaten s₁ name (s₁.comeBack t name node st) := comeBack_beaten hget
      cases hr : s₁.comeBack t name node st with
      | error s' =>
        rw [hr] at hback
        exact h₁.trans hback
      | ok r =>
        rw [hr] at hback
        exact ⟨h₁.trans hback.1, hback.2⟩
    · exact ⟨h₁, name_of_get hget, hsome⟩
  · split
    · exact goDown_beaten hget
    · exact ⟨.refl s, name_of_get hget, hsome⟩

theorem recount_touches (hn : node.name = name) (hhere : (s.get .node name).isSome) : Touches .node s (s.recount name node) := by
  unfold recount
  split
  · exact .refl s
  · dsimp only
    split
    · exact .changed (hn ▸ hhere) rfl rfl
    · exact .refl s

theorem settle_follows (hn : node.name = name) (hhere : (s.get .node name).isSome) : Follows s (s.settle name node) := by
  have hcount := (recount_touches hn hhere).toFollows
  unfold settle
  split
  · split
    -- The node is deleted, and nothing is sent for it afterwards.
    · refine .trans ?_ reconcileVipAllocations_touches.toFollows
      refine Touches.toFollows (k := .node) (.dropped node ?_ rfl)
      rw [hn]
      rfl
    · split
      · exact hcount
      · rename_i st hst
        split
        · dsimp only
          set drained := node.withNodeStatus { st with phase := .ready }
          have hdrained : (s.get .node drained.name).isSome := hn ▸ hhere
          have hname : drained.name = name := hn
          have h₁ : Touches .node s ((s.write drained).emit .modified drained) := .changed hdrained rfl rfl
          have hhere₁ : (((s.write drained).emit .modified drained).get .node name).isSome := hname ▸ isSome_changed hdrained
          refine h₁.toFollows.trans (recount_touches ?_ hhere₁).toFollows
          exact hname
        · exact hcount
  · exact hcount

theorem nodeStep_follows (name : String) : Follows s (left (s.nodeStep t name)) := by
  unfold nodeStep
  split
  · rename_i agent node _ hget
    split
    · exact .refl s
    · rename_i st _
      have hbeat : Beaten s name (s.beat t name agent node st) := beat_beaten hget
      cases hr : s.beat t name agent node st with
      | error s' =>
        rw [hr] at hbeat
        exact hbeat
      | ok r =>
        rw [hr] at hbeat
        obtain ⟨hfollows, hn, hhere⟩ := hbeat
        exact hfollows.trans (settle_follows hn hhere)
  · exact .refl s

theorem nodeLifecycle_follows : Follows s (left (s.nodeLifecycle t)) :=
  foldlM_left Follows Follows.refl Follows.trans (fun _ name => nodeStep_follows name) _ s

end Sweep

/-! ### Workloads, scheduling and time -/

section Rounds
variable {t : SimTimings} {localeLe : String → String → Bool} {s : Cluster}

theorem scaleDown_touches (wl : Option (Obj .workload)) (name : String) : Touches .inst s (s.scaleDown t wl name) := by
  unfold scaleDown
  exact ((quiet_metaOf name).trans quiet_setMeta).trans (startDrainOut_touches name wl)

theorem reconcileWorkload_touches (wl : Obj .workload) : Touches .inst s (s.reconcileWorkload t wl) := by
  unfold reconcileWorkload
  dsimp only
  set s₁ := (s.instancesOf wl.name).foldl (fun s inst => (s.metaOf inst.name).2) s
  have h₁ : Touches .inst s s₁ := .foldl (fun s (inst : Obj .inst) => quiet_metaOf inst.name) _ _
  set serving := (s.instancesOf wl.name).filter s.serves
  set s₂ := (List.range (wl.body.spec.replicas - serving.length).toNat).foldl (fun s _ => s.createInstance wl) s₁
  have h₂ : Touches .inst s₁ s₂ := .foldl (fun s _ => createInstance_touches wl) _ _
  set victims := (serving.mergeSort fun a b => seqOf b ≤ seqOf a).take (serving.length - wl.body.spec.replicas).toNat
  set s₃ := victims.foldl (fun s v => s.scaleDown t (some wl) v.name) s₂
  have h₃ : Touches .inst s₂ s₃ := .foldl (fun s (v : Obj .inst) => scaleDown_touches (some wl) v.name) _ _
  have hkept := (h₁.trans h₂).trans h₃
  split
  · split
    · exact hkept.trans (startDrainOut_touches _ _)
    · exact hkept
  · exact hkept

theorem drainOrphan_touches (name : String) : Touches .inst s (s.drainOrphan t name) := by
  unfold drainOrphan
  split
  · exact .refl s
  · split
    · exact .refl s
    · dsimp only
      split
      · exact (quiet_metaOf name).trans (scaleDown_touches none name)
      · exact quiet_metaOf name

theorem reconcileWorkloads_touches : Touches .inst s (s.reconcileWorkloads t) := by
  unfold reconcileWorkloads
  exact .trans (.foldl (fun s wl => reconcileWorkload_touches wl) _ _) (.foldl (fun s name => drainOrphan_touches name) _ _)

theorem scheduleOne_touches (name : String) : Touches .inst s (s.scheduleOne t localeLe name) := by
  unfold scheduleOne
  split
  · exact .refl s
  · rename_i inst hget
    split
    · exact .refl s
    · dsimp only
      split
      · exact .refl s
      · split
        · exact .refl s
        · refine .trans ?_ quiet_after
          exact .changed (isSome_of_get hget rfl) rfl rfl

theorem schedule_touches : Touches .inst s (s.schedule t localeLe) := by
  unfold schedule
  exact .foldl (fun s name => scheduleOne_touches name) _ _

theorem runJob_follows (job : Job) : Follows s (left (s.runJob t job)) := by
  cases job with
  | infraUp name => exact (infraUp_touches name).toFollows
  | restart name => exact (restart_touches name).toFollows
  | reschedule name => exact (reschedule_touches name).toFollows
  | containerStarted name => exact (containerStarted_touches name).toFollows
  | becomeReady name => exact (becomeReady_touches name).toFollows
  | terminate name graceMs => exact (terminate_touches name graceMs).toFollows
  | deleteInstance name => exact (deleteInstance_touches name).toFollows

theorem runDue_follows (s : Cluster) : Follows s (left (s.runDue t)) := by
  fun_induction runDue t s with
  | case1 s ht => exact .refl s
  | case2 s task rest ht hdue s' hj =>
    have hjob := runJob_follows (t := t) (s := { s with tasks := rest }) task.run
    rw [hj] at hjob
    exact (Touches.quiet rfl rfl : Touches .inst s { s with tasks := rest }).toFollows.trans hjob
  | case3 s task rest ht hdue s' hj ih =>
    have hjob := runJob_follows (t := t) (s := { s with tasks := rest }) task.run
    rw [hj] at hjob
    exact ((Touches.quiet rfl rfl : Touches .inst s { s with tasks := rest }).toFollows.trans hjob).trans ih
  | case4 s task rest ht hdue => exact .refl s

theorem heartbeat_follows : Follows s (left (s.heartbeat t)) := by
  unfold heartbeat
  split
  · exact (Touches.quiet rfl rfl : Touches .node s { s with lastSweepBeat := s.now }).toFollows.trans nodeLifecycle_follows
  · exact .refl s

theorem sweep_follows : Follows s (s.sweep t localeLe) := by
  unfold sweep
  have hwork := (reconcileWorkloads_touches (t := t) (s := s)).toFollows
  have hvips := hwork.trans reconcileVipAllocations_touches.toFollows
  have hports := hvips.trans reconcileIngressAllocations_touches.toFollows
  exact hports.trans schedule_touches.toFollows

theorem advance_follows (dtMs : ℚ) : Follows s (left (s.advance t localeLe dtMs)) := by
  unfold advance
  split
  · exact .refl s
  · dsimp only
    set s₁ : Cluster := { s with now := s.now + dtMs, tasks := s.tasks.mergeSort fun a b => a.due ≤ b.due }
    have h₁ : Follows s s₁ := (Touches.quiet rfl rfl : Touches .inst s s₁).toFollows
    refine h₁.trans (bind_left Follows Follows.trans (runDue_follows s₁) fun s₂ => ?_)
    refine bind_left Follows Follows.trans heartbeat_follows fun s₃ => ?_
    rw [left_pure]
    exact sweep_follows

end Rounds

/-! ### The public operations -/

section Public
variable {t : SimTimings} {sameText : (k : Kind) → Obj k → Obj k → Bool} {s : Cluster}

theorem register_objects (k : Kind) (name : String) : (s.register t k name).objects = s.objects := by
  unfold register
  split <;> rfl

theorem register_watchers (k : Kind) (name : String) : (s.register t k name).watchers = s.watchers := by
  unfold register
  split <;> rfl

theorem store_follows (k : Kind) (o : Obj k) : Follows s (s.store t sameText k o).2 := by
  unfold store
  dsimp only
  split
  · exact .refl s
  · set stored := keepStatus _ (s.get k o.name)
    set type : EventType := if (s.get k o.name).isSome then .modified else .added
    have htype : type ≠ .deleted := by
      show (if (s.get k o.name).isSome then EventType.modified else EventType.added) ≠ .deleted
      split <;> nofun
    have hobjects : ((s.register t k o.name).set stored).objects = (s.set stored).objects := by
      unfold set
      rw [register_objects]
    have hstored : Touches k s (((s.register t k o.name).set stored).emit type stored) :=
      .stored stored htype hobjects (register_watchers k o.name)
    dsimp only
    split
    · exact hstored.toFollows.trans reconcileVipAllocations_touches.toFollows
    · exact hstored.toFollows

theorem applyObject_follows (obj : KliteObject) : Follows s (s.applyObject t sameText obj).2 := by
  unfold applyObject
  split
  · exact .refl s
  · exact store_follows obj.1 obj.2

theorem applyObjects_follows (objs : List KliteObject) : Follows s (s.applyObjects t sameText objs).2 := by
  induction objs generalizing s with
  | nil => exact .refl s
  | cons obj objs ih => exact (applyObject_follows obj).trans ih

theorem remove_follows (k : Kind) (name : String) : Follows s (s.remove t k name) := by
  unfold remove
  split
  · exact .refl s
  · rename_i obj hget
    split
    · refine .trans ?_ (cordonAndDrain_touches name).toFollows
      exact Touches.toFollows (k := .node) (.quiet rfl rfl)
    · split
      · exact (killInstance_touches name).toFollows
      · dsimp only
        have hdrop : Touches k s ((s.delete k name).emit .deleted obj) := by
          refine .dropped obj ?_ rfl
          rw [name_of_get hget]
        have hvips : Follows s (if k = .service then ((s.delete k name).emit .deleted obj).reconcileVipAllocations
            else (s.delete k name).emit .deleted obj) := by
          split
          · exact hdrop.toFollows.trans reconcileVipAllocations_touches.toFollows
          · exact hdrop.toFollows
        split
        · exact hvips.trans (Touches.foldl (fun s (inst : Obj .inst) => deleteInstance_touches inst.name) _ _).toFollows
        · exact hvips

theorem cordon_follows (name : String) (on : Bool) : Follows s (s.cordon name on) := by
  unfold cordon
  split
  · exact .refl s
  · rename_i node hget
    split
    · exact .refl s
    · exact Touches.toFollows (k := .node) (.changed (isSome_of_get hget rfl) rfl rfl)

theorem killNodeAgent_follows (name : String) : Follows s (s.killNodeAgent name) := by
  unfold killNodeAgent
  split
  · exact .refl s
  · exact Touches.toFollows (k := .node) (.quiet rfl rfl)

theorem reviveNodeAgent_follows (name : String) : Follows s (s.reviveNodeAgent name) := by
  unfold reviveNodeAgent
  split
  · exact .refl s
  · exact Touches.toFollows (k := .node) (.quiet rfl rfl)

end Public

/-! ### The replay -/

section Replay
variable {s : Cluster}

/-- The store has nothing that the cluster does not have. -/
def Within (S : Snapshot) (s : Cluster) : Prop := ∀ k name o, (S.objects k)[name]? = some o → s.get k name = some o

variable {S : Snapshot}

theorem Within.added (h : Within S s) {o : Obj k} (ho : s.get k o.name = some o) (rev : Int) :
    Within (S.applyEvent (.change .added rev k o)) s := by
  intro k' name o' hS
  by_cases he : k' = k ∧ name = o.name
  · obtain ⟨rfl, rfl⟩ := he
    rw [Snapshot.get_change_self, if_neg nofun] at hS
    rw [← hS]
    exact ho
  · rw [Snapshot.get_change_ne S .added rev o he] at hS
    exact h k' name o' hS

theorem kept_added {o : Obj k} (ho : s.get k o.name = some o) (rev : Int) {o' : Obj k'} (hs : s.get k' name = some o')
    (hS : (S.objects k')[name]? = some o') : ((S.applyEvent (.change .added rev k o)).objects k')[name]? = some o' := by
  by_cases he : k' = k ∧ name = o.name
  · obtain ⟨rfl, rfl⟩ := he
    rw [Snapshot.get_change_self, if_neg nofun, ← ho]
    exact hs
  · rw [Snapshot.get_change_ne S .added rev o he]
    exact hS

theorem replay_added {rev : Int} (evs : List WatchEvent)
    (hevs : ∀ e ∈ evs, ∃ k, ∃ o : Obj k, e = .change .added rev k o ∧ s.get k o.name = some o) (hS : Within S s) :
    Within (evs.foldl Snapshot.applyEvent S) s ∧
      ∀ k name o, s.get k name = some o → (S.objects k)[name]? = some o ∨ .change .added rev k o ∈ evs →
        ((evs.foldl Snapshot.applyEvent S).objects k)[name]? = some o := by
  induction evs generalizing S with
  | nil => exact ⟨hS, fun k name o _ h => h.resolve_right List.not_mem_nil⟩
  | cons e evs ih =>
    obtain ⟨k₀, o₀, rfl, ho₀⟩ := hevs e List.mem_cons_self
    obtain ⟨hwithin, hall⟩ := ih (fun e he => hevs e (List.mem_cons_of_mem _ he)) (hS.added ho₀ rev)
    refine ⟨hwithin, fun k name o hs h => hall k name o hs ?_⟩
    rcases h with h | h
    · exact .inl (kept_added ho₀ rev hs h)
    · rcases List.mem_cons.mp h with heq | h
      · cases heq
        rw [← name_of_get hs]
        refine .inl ?_
        rw [Snapshot.get_change_self, if_neg nofun]
      · exact .inr h

theorem mem_kinds (k : Kind) : k ∈ kinds := by
  cases k <;> decide

theorem replay_mirrors : Mirrors (s.replay.foldl Snapshot.applyEvent {}) s := by
  intro k name
  set evs := kinds.flatMap fun k => (s.objects k).values.map fun o => WatchEvent.change .added s.rev k o with hdef
  have hevs : ∀ e ∈ evs, ∃ k, ∃ o : Obj k, e = .change .added s.rev k o ∧ s.get k o.name = some o := by
    intro e he
    obtain ⟨k, -, he⟩ := List.mem_flatMap.mp he
    obtain ⟨o, ho, rfl⟩ := List.mem_map.mp he
    exact ⟨k, o, rfl, Shelf.get_of_mem ho⟩
  have hempty : Within {} s := by
    intro k name o h
    simp at h
  obtain ⟨hwithin, hall⟩ := replay_added evs hevs hempty
  have hsync : s.replay.foldl Snapshot.applyEvent {} = (evs.foldl Snapshot.applyEvent {}).applyEvent (.sync s.rev) := by
    unfold replay
    rw [List.foldl_append]
    rfl
  rw [hsync]
  show ((evs.foldl Snapshot.applyEvent {}).objects k)[name]? = _
  cases hs : s.get k name with
  | some o =>
    refine hall k name o hs (.inr ?_)
    exact List.mem_flatMap.mpr ⟨k, mem_kinds k, List.mem_map.mpr ⟨o, Shelf.mem_of_get hs, rfl⟩⟩
  | none =>
    cases hS : ((evs.foldl Snapshot.applyEvent {}).objects k)[name]? with
    | none => rfl
    | some o =>
      have hsome := hwithin k name o hS
      rw [hs] at hsome
      cases hsome

theorem subscribe_mirrored (h : Mirrored s) : Mirrored s.subscribe := by
  intro S hS
  rcases List.mem_append.mp hS with hS | hS
  · exact h S hS
  · obtain rfl := List.mem_singleton.mp hS
    exact replay_mirrors

end Replay

/-! ### Runs -/

section Runs
variable (t : SimTimings) (sameText : (k : Kind) → Obj k → Obj k → Bool) (localeLe : String → String → Bool)

theorem perform_mirrored {s : Cluster} (h : Mirrored s) (op : Op) : Mirrored (s.perform t sameText localeLe op) ∧
      (s.perform t sameText localeLe op).watchers.length = s.watchers.length + (if op.subscribes then 1 else 0) := by
  have hstep {s' : Cluster} (hf : Follows s s') : Mirrored s' ∧ s'.watchers.length = s.watchers.length + 0 :=
    ⟨hf.mirrored h, hf.watchers⟩
  cases op with
  | applyObjects objs => exact hstep (applyObjects_follows objs)
  | remove k name => exact hstep (remove_follows k name)
  | cordon name on => exact hstep (cordon_follows name on)
  | drainNode name => exact hstep (cordonAndDrain_touches name).toFollows
  | killInstance name => exact hstep (killInstance_touches name).toFollows
  | killNodeAgent name => exact hstep (killNodeAgent_follows name)
  | reviveNodeAgent name => exact hstep (reviveNodeAgent_follows name)
  | advance dtMs => exact hstep (advance_follows dtMs)
  | subscribe => exact ⟨subscribe_mirrored h, List.length_append⟩

theorem runs_mirrored {s : Cluster} (h : Mirrored s) (ops : List Op) :
    Mirrored (runs (perform t sameText localeLe) s ops) ∧
      (runs (perform t sameText localeLe) s ops).watchers.length = s.watchers.length + ops.countP Op.subscribes := by
  induction ops generalizing s with
  | nil => exact ⟨h, rfl⟩
  | cons op ops ih =>
    obtain ⟨hop, hlength⟩ := perform_mirrored t sameText localeLe h op
    obtain ⟨hops, hrest⟩ := ih hop
    refine ⟨hops, hrest.trans ?_⟩
    rw [hlength, List.countP_cons]
    omega

theorem start_mirrored (seed : List KliteObject) : Mirrored (start t sameText seed) ∧ (start t sameText seed).watchers.length = 0 := by
  have hstart : Follows {} (start t sameText seed) := applyObjects_follows seed
  exact ⟨hstart.mirrored nofun, hstart.watchers⟩

/-- Every store that subscribed at some point of the run is a watcher of the cluster at its end, and has exactly the
cluster's objects. As the run is any run, this is so after each of its operations. -/
theorem watch_stream_complete (seed : List KliteObject) (ops : List Op) :
    (runs (perform t sameText localeLe) (start t sameText seed) ops).watchers.length = ops.countP Op.subscribes ∧
      ∀ S ∈ (runs (perform t sameText localeLe) (start t sameText seed) ops).watchers, ∀ k name,
        (S.objects k)[name]? = (runs (perform t sameText localeLe) (start t sameText seed) ops).get k name := by
  obtain ⟨hstart, hnone⟩ := start_mirrored t sameText seed
  obtain ⟨hmirrored, hlength⟩ := runs_mirrored t sameText localeLe hstart ops
  rw [hnone, Nat.zero_add] at hlength
  exact ⟨hlength, hmirrored⟩

end Runs

def removalSeed : List KliteObject := [⟨.service, { name := "web" }, [("app", "web")], 80, 8080⟩]

/-- A node comes up, and is removed when one store has watched from the beginning and one has joined. -/
def removalOps : List Op :=
  [.subscribe, .applyObjects [⟨.node, { name := "a" }, { maxInstances := 2 }⟩], .advance 1100, .subscribe,
    .remove .node "a", .advance 1000]

def removal : Cluster :=
  runs (perform defaultTimings (fun _ _ _ => false) (· ≤ ·)) (start defaultTimings (fun _ _ _ => false) removalSeed) removalOps

theorem watch_stream_complete_removal : removal.watchers.length = 2 ∧
      ∀ S ∈ removal.watchers, (S.objects .node)["a"]? = none ∧ ((S.objects .service)["web"]?).isSome := by
  have hnode : (removal.get .node "a").isNone := by decide +kernel
  have hservice : (removal.get .service "web").isSome := by decide +kernel
  obtain ⟨hlength, hstores⟩ := watch_stream_complete defaultTimings (fun _ _ _ => false) (· ≤ ·) removalSeed removalOps
  refine ⟨hlength, fun S hS => ⟨?_, ?_⟩⟩
  · exact (hstores S hS .node "a").trans (Option.isNone_iff_eq_none.mp hnode)
  · exact (congrArg Option.isSome (hstores S hS .service "web")).trans hservice

end Cluster

end Klite.Sim
