import Klite.Agent.Match

/-!
# What a pass may do to the containers

A pass knows the map it copied and the containers it listed.
-/

namespace Klite.Agent
open Lib

abbrev Call := Event Op Res World

abbrev Log := List Call

def copiedBy : Call → Option Desired
  | ⟨.snapshotDesired, desired, _, _⟩ => some desired
  | _ => none

def listedBy : Call → Option (List RunningInstance)
  | ⟨.containerList, .ok l, _, _⟩ => some l
  | _ => none

def makes : Call → Option (Instance × Option ℕ)
  | ⟨.containerCreate inst, .created id, _, _⟩ => some (inst, some id)
  | ⟨.containerCreate inst, .failed _, _, _⟩ => some (inst, none)
  | _ => none

section Log
variable (h : Log)

def copied : Option Desired := h.findSome? copiedBy

def listed : Option (List RunningInstance) := h.findSome? listedBy

def made : List (Instance × Option ℕ) := h.filterMap makes

end Log

def Spares (desired : Desired) (ri : RunningInstance) : Prop := Claimed desired ri.labels → ri.running = false

def passSpec (h : Log) (_ : World) : Op → Prop
  | .snapshotDesired => made h = []
  | .containerList => made h = []
  | .containerStop id _ => ∃ D l ri, copied h = some D ∧ listed h = some l ∧ ri ∈ l ∧ ri.containerID = id ∧ Spares D ri
  | .containerRemove id => ∃ D l ri, copied h = some D ∧ listed h = some l ∧ ri ∈ l ∧ ri.containerID = id ∧ Spares D ri
  | .containerRemoveName name => ∃ D l, copied h = some D ∧ listed h = some l ∧
      (∀ ri ∈ l, ri.instanceName = name → Spares D ri) ∧ ∀ m ∈ made h, m.1.metadata.name ≠ name
  | .containerCreate inst => ∃ D, copied h = some D ∧ D.map[inst.metadata.name]? = some inst
  | .containerStart id => ∃ l inst, listed h = some l ∧ (inst, some id) ∈ made h
  | _ => True

section Views
variable {me : Identity} {h h' h'' : Log} {n : String}

def Op.free : Op → Bool
  | .snapshotDesired | .containerList | .containerCreate _ => false
  | .containerStop _ _ | .containerRemove _ | .containerRemoveName _ | .containerStart _ => false
  | _ => true

def Same (h h' : Log) : Prop := copied h' = copied h ∧ listed h' = listed h ∧ made h' = made h

def Grows (n : String) (h h' : Log) : Prop :=
  copied h' = copied h ∧ listed h' = listed h ∧ ∀ m ∈ made h', m ∈ made h ∨ m.1.metadata.name = n

theorem same_refl (h : Log) : Same h h := ⟨rfl, rfl, rfl⟩

theorem same_trans (h₁ : Same h h') (h₂ : Same h' h'') : Same h h'' :=
  ⟨h₂.1.trans h₁.1, h₂.2.1.trans h₁.2.1, h₂.2.2.trans h₁.2.2⟩

theorem grows_of_same (hs : Same h h') : Grows n h h' := ⟨hs.1, hs.2.1, fun _ hm => Or.inl (hs.2.2 ▸ hm)⟩

theorem same_grows (hs : Same h h') (hg : Grows n h' h'') : Grows n h h'' :=
  ⟨hg.1.trans hs.1, hg.2.1.trans hs.2.1, fun m hm => hs.2.2 ▸ hg.2.2 m hm⟩

theorem grows_same (hg : Grows n h h') (hs : Same h' h'') : Grows n h h'' :=
  ⟨hs.1.trans hg.1, hs.2.1.trans hg.2.1, fun m hm => hg.2.2 m (hs.2.2 ▸ hm)⟩

theorem same_event {e : Call} (hc : copiedBy e = none) (hl : listedBy e = none) (hm : makes e = none) :
    Same h (e :: h) := by
  refine ⟨?_, ?_, ?_⟩
  · unfold copied
    rw [List.findSome?_cons, hc]
  · unfold listed
    rw [List.findSome?_cons, hl]
  · unfold made
    rw [List.filterMap_cons, hm]

theorem same_free {op : Op} (hop : op.free) (c : Choice) (w : World) : Same h ((host me).event c op w :: h) := by
  cases op <;> first | exact same_event rfl rfl rfl | cases hop

abbrev Free {α : Type} (p : Code α) : Prop := Only (fun op => op.free) p

end Views

section Obeys
variable {me : Identity} {h : Log} {α β : Type} {n : String} {inst : Instance}

variable (me) in
abbrev Obeys (Q : Log → α → Prop) (p : Code α) (h : Log) : Prop := Follows (host me) passSpec Q p h

theorem obeys_free {p : Code α} (hp : Free p) : Obeys me (fun h' _ => Same h h') p h := by
  have key : ∀ (p : Code α) (h₀ h : Log), Free p → Same h₀ h → Obeys me (fun h' _ => Same h₀ h') p h := by
    intro p
    induction p with
    | ret a => exact fun _ _ _ hs => hs
    | crash => exact fun _ _ hp _ => hp.elim
    | call op k ih =>
      intro h₀ h hp hs w _
      refine ⟨?_, fun c => ih _ h₀ _ (hp.2 _) (same_trans hs (same_free hp.1 c w))⟩
      have hop := hp.1
      cases op <;> trivial
  exact key p h h hp (same_refl h)

theorem obeys_then {p : Code β} {f : β → Code α} (hp : Free p)
    (hf : ∀ b h', Same h h' → Obeys me (fun h'' _ => Grows n h' h'') (f b) h') :
    Obeys me (fun h'' _ => Grows n h h'') (p >>= f) h := by
  refine follows_bind (obeys_free hp) ?_
  intro h' b _ hs
  exact follows_post (fun _ _ hg => same_grows hs hg) (hf b h' hs)

theorem obeys_only {p : Code α} (hp : Free p) : Obeys me (fun h' _ => Grows n h h') p h :=
  follows_post (fun _ _ hs => grows_of_same hs) (obeys_free hp)

theorem free_runningPhase : Free (runningPhase inst) := by
  unfold runningPhase
  split
  · trivial
  · refine only_bind (only_call rfl) fun b => ?_
    cases b <;> trivial

theorem free_failInstance (name : String) (st : InstState) (e : String) : Free (failInstance name st e) :=
  only_bind (only_call rfl) fun _ => only_bind (only_call rfl) fun _ => trivial

theorem free_markRunning (ri : RunningInstance) (st : InstState) : Free (markRunning inst ri st) :=
  only_bind free_runningPhase fun _ => only_bind (only_call rfl) fun _ => trivial

theorem free_observeDraining (ri : Option RunningInstance) (st : InstState) : Free (observeDraining inst ri st) :=
  only_bind (only_call rfl) fun _ => trivial

/- What a pass must know before it makes a container for an instance. -/
structure Ready (inst : Instance) (h : Log) : Prop where
  desired : ∃ D l, copied h = some D ∧ listed h = some l ∧ D.map[inst.metadata.name]? = some inst ∧
    ∀ ri ∈ l, ri.instanceName = inst.metadata.name → Spares D ri
  unmade : ∀ m ∈ made h, m.1.metadata.name ≠ inst.metadata.name

theorem ready_same {h' : Log} (hs : Same h h') (hr : Ready inst h) : Ready inst h' where
  desired := by
    rw [hs.1, hs.2.1]
    exact hr.desired
  unmade := by
    rw [hs.2.2]
    exact hr.unmade

def noted : Created → Option (Option ℕ)
  | .created id => some (some id)
  | .failed _ => some none
  | .conflict _ => none

theorem makes_create (me : Identity) (inst : Instance) (c : Choice) (w : World) :
    makes ((host me).event c (.containerCreate inst) w) =
      (noted (exec c (.containerCreate inst) w).1).map fun known => (inst, known) := by
  unfold Machine.event
  dsimp only
  cases (exec c (.containerCreate inst) w).1 <;> rfl

theorem made_create (me : Identity) (inst : Instance) (c : Choice) (w : World) (h : Log) :
    made ((host me).event c (.containerCreate inst) w :: h) =
      ((noted (exec c (.containerCreate inst) w).1).map fun known => (inst, known)).toList ++ made h := by
  unfold made
  rw [List.filterMap_cons, makes_create me inst c w]
  cases noted (exec c (.containerCreate inst) w).1 <;> rfl

theorem obeys_create {Q : Log → α → Prop} {k : Created → Code α} (hr : Ready inst h)
    (hk : ∀ r h', Grows inst.metadata.name h h' → (∀ text, r = .conflict text → Same h h') →
      (∀ id, r = .created id → (inst, some id) ∈ made h') → Obeys me Q (k r) h') :
    Obeys me Q (call (.containerCreate inst) >>= k) h := by
  refine follows_call fun w _ => ⟨?_, fun c => ?_⟩
  · obtain ⟨D, l, hD, -, hi, -⟩ := hr.desired
    exact ⟨D, hD, hi⟩
  · have hcopied : copied ((host me).event c (.containerCreate inst) w :: h) = copied h := rfl
    have hlisted : listed ((host me).event c (.containerCreate inst) w :: h) = listed h := rfl
    have hmade := made_create me inst c w h
    apply hk
    · refine ⟨hcopied, hlisted, ?_⟩
      intro m hm
      rw [hmade] at hm
      rcases List.mem_append.mp hm with hm | hm
      · obtain ⟨known, -, rfl⟩ := Option.map_eq_some_iff.mp (Option.mem_toList.mp hm)
        exact Or.inr rfl
      · exact Or.inl hm
    · intro text hres
      refine ⟨hcopied, hlisted, ?_⟩
      rw [hmade, hres]
      rfl
    · intro id hres
      rw [hmade, hres]
      exact List.mem_cons_self

theorem obeys_startCreated {name : String} {r : Created} (hl : listed h ≠ none)
    (hr : ∀ id, r = .created id → (inst, some id) ∈ made h) :
    Obeys me (fun h' _ => Same h h') (startCreated name r) h := by
  cases r with
  | created id =>
    refine follows_call fun w _ => ⟨?_, fun c => ?_⟩
    · obtain ⟨l, hl⟩ := Option.ne_none_iff_exists'.mp hl
      exact ⟨l, inst, hl, hr id rfl⟩
    · have hs : Same h ((host me).event c (.containerStart id) w :: h) := same_event rfl rfl rfl
      generalize ((host me).exec c (.containerStart id) w).1 = r at *
      cases r <;> exact hs
  | conflict e => exact same_refl h
  | failed e => exact same_refl h

theorem ready_listed (hr : Ready inst h) : listed h ≠ none := by
  obtain ⟨D, l, -, hl, -⟩ := hr.desired
  rw [hl]
  simp

theorem obeys_createAndStart (node : String) (hr : Ready inst h) :
    Obeys me (fun h' _ => Grows inst.metadata.name h h') (createAndStart node inst) h := by
  -- The create that is not refused, in either place.
  have hstart : ∀ (r : Created) (h' : Log), Grows inst.metadata.name h h' →
      (∀ id, r = .created id → (inst, some id) ∈ made h') →
      Obeys me (fun h'' _ => Grows inst.metadata.name h h'') (startCreated (containerName node inst.metadata.name) r) h' := by
    intro r h' hg hid
    refine follows_post (fun _ _ hs => grows_same hg hs) (obeys_startCreated ?_ hid)
    rw [hg.2.1]
    exact ready_listed hr
  unfold createAndStart
  refine obeys_create hr fun r h' hg hc hid => ?_
  cases r with
  | created id => exact hstart _ h' hg hid
  | failed e => exact hstart _ h' hg hid
  | conflict e =>
    have hr' := ready_same (hc e rfl) hr
    refine follows_call fun w _ => ⟨?_, fun c => ?_⟩
    · obtain ⟨D, l, hD, hl, -, hsp⟩ := hr'.desired
      exact ⟨D, l, hD, hl, hsp, hr'.unmade⟩
    · have hs : Same h' ((host me).event c (.containerRemoveName inst.metadata.name) w :: h') := same_event rfl rfl rfl
      generalize ((host me).event c (.containerRemoveName inst.metadata.name) w :: h') = h₁ at hs ⊢
      generalize ((host me).exec c (.containerRemoveName inst.metadata.name) w).1 = r
      cases r with
      | error e => exact grows_same hg hs
      | ok u =>
        refine obeys_create (ready_same hs hr') fun r h₂ hg₂ _ hid₂ => ?_
        exact hstart r h₂ (same_grows (same_trans (hc e rfl) hs) hg₂) hid₂

theorem obeys_runInstance (node : String) (hr : Ready inst h) :
    Obeys me (fun h' _ => Grows inst.metadata.name h h') (runInstance node inst) h := by
  refine obeys_then (only_call rfl) fun r h' hs => ?_
  cases r with
  | error e => exact grows_of_same (same_refl h')
  | ok u => exact obeys_createAndStart node (ready_same hs hr)

theorem obeys_startInstance (node : String) (st : InstState) (hr : Ready inst h) :
    Obeys me (fun h' _ => Grows inst.metadata.name h h') (startInstance node inst st) h := by
  refine obeys_then (only_call rfl) fun now h₁ hs₁ => ?_
  split
  · exact obeys_only (only_bind (only_call rfl) fun _ => trivial)
  · refine obeys_then (only_call rfl) fun image h₂ hs₂ => ?_
    cases image with
    | error e => exact obeys_only (free_failInstance _ st e)
    | ok u =>
      have hr₂ := ready_same (same_trans hs₁ hs₂) hr
      refine follows_bind (obeys_runInstance node hr₂) ?_
      intro h₃ r _ hg
      refine follows_post (fun _ _ hs => grows_same hg hs) ?_
      apply obeys_free
      cases r with
      | error e => exact free_failInstance _ st e
      | ok id =>
        refine only_bind free_runningPhase fun phase => only_bind (only_call rfl) fun ip => ?_
        exact only_bind (only_call rfl) fun _ => trivial

def Removable (h : Log) (ri : RunningInstance) : Prop :=
  ∃ D l, copied h = some D ∧ listed h = some l ∧ ri ∈ l ∧ Spares D ri

variable {ri : RunningInstance}

theorem removable_same {h' : Log} (hs : Same h h') (hr : Removable h ri) : Removable h' ri := by
  unfold Removable
  rw [hs.1, hs.2.1]
  exact hr

theorem obeys_removeInstance (hr : Removable h ri) :
    Obeys me (fun h' _ => Same h h') (removeInstance ri.containerID) h := by
  obtain ⟨D, l, hD, hl, hm, hsp⟩ := hr
  exact follows_call fun w _ => ⟨⟨D, l, ri, hD, hl, hm, rfl, hsp⟩, fun c => same_event rfl rfl rfl⟩

theorem obeys_stopInstance (grace : Int) (hr : Removable h ri) :
    Obeys me (fun h' _ => Same h h') (stopInstance ri.containerID grace) h := by
  obtain ⟨D, l, hD, hl, hm, hsp⟩ := hr
  exact follows_call fun w _ => ⟨⟨D, l, ri, hD, hl, hm, rfl, hsp⟩, fun c => same_event rfl rfl rfl⟩

theorem obeys_restartInstance (node : String) (st : InstState) (hr : Ready inst h) (hrm : Removable h ri) :
    Obeys me (fun h' _ => Grows inst.metadata.name h h') (restartInstance node inst ri st) h := by
  unfold restartInstance
  dsimp only
  split
  · exact obeys_only (only_bind (only_call rfl) fun _ => only_bind (only_call rfl) fun _ => trivial)
  · refine obeys_then (only_call rfl) fun now h₁ hs₁ => ?_
    split
    · exact obeys_only (only_bind (only_call rfl) fun _ => trivial)
    · refine follows_bind (obeys_removeInstance (removable_same hs₁ hrm)) ?_
      intro h₂ r _ hs₂
      refine follows_post (fun _ _ hg => same_grows hs₂ hg) ?_
      cases r with
      | error e => exact obeys_only (free_failInstance _ st e)
      | ok u => exact obeys_startInstance node st (ready_same (same_trans hs₁ hs₂) hr)

theorem obeys_reconcileInstance (node : String) {ri : Option RunningInstance}
    (hr : (∀ r, ri = some r → r.running = false) → Ready inst h)
    (hrm : ∀ r, ri = some r → r.running = false → Removable h r) :
    Obeys me (fun h' _ => Grows inst.metadata.name h h') (reconcileInstance node inst ri) h := by
  refine obeys_then (only_call rfl) fun st h₁ hs => ?_
  dsimp only
  split
  · exact obeys_only (free_observeDraining _ _)
  · cases ri with
    | none => exact obeys_startInstance node _ (ready_same hs (hr nofun))
    | some r =>
      dsimp only
      split
      · exact obeys_only (free_markRunning _ _)
      · rename_i hrun
        have hoff := Bool.eq_false_iff.mpr hrun
        have hready := hr fun r' he => Option.some.inj he ▸ hoff
        exact obeys_restartInstance node _ (ready_same hs hready) (removable_same hs (hrm r rfl hoff))

theorem obeys_stopOrphan (hr : Removable h ri) : Obeys me (fun h' _ => Same h h') (stopOrphan ri) h := by
  unfold stopOrphan
  split
  · refine follows_bind (obeys_free (only_call rfl)) ?_
    intro h₁ grace _ hs
    exact follows_post (fun _ _ hs' => same_trans hs hs')
      (obeys_stopInstance grace (removable_same hs hr))
  · exact same_refl h

theorem obeys_removeOrphan (hr : Removable h ri) : Obeys me (fun h' _ => Same h h') (removeOrphan ri) h := by
  refine follows_bind (obeys_stopOrphan hr) ?_
  intro h₁ r _ hs
  cases r with
  | error e => exact hs
  | ok u =>
    refine follows_bind (obeys_removeInstance (removable_same hs hr)) ?_
    intro h₂ r _ hs₂
    refine follows_post (fun _ _ hs' => same_trans (same_trans hs hs₂) hs') ?_
    cases r with
    | error e => exact same_refl h₂
    | ok u => exact obeys_free (only_bind (only_call rfl) fun _ => trivial)

theorem obeys_removeOrphans {orphans : List RunningInstance} (hr : ∀ ri ∈ orphans, Removable h ri) :
    Obeys me (fun h' _ => Same h h') (removeOrphans orphans) h := by
  have hloop : Obeys me (fun h' _ => Same h h' ∧ ∀ ri ∈ [], Removable h' ri) (removeOrphans orphans) h := by
    refine follows_foldlM (M := host me) _ (fun (bs : List RunningInstance) (h' : Log) (_ : List String) =>
      Same h h' ∧ ∀ ri ∈ bs, Removable h' ri) ?_ orphans [] h ⟨same_refl h, hr⟩
    rintro ri bs h₁ errs ⟨hs, hrs⟩
    refine follows_bind (obeys_removeOrphan (hrs ri List.mem_cons_self)) ?_
    intro h₂ r _ hs₂
    exact ⟨same_trans hs hs₂, fun x hx => removable_same hs₂ (hrs x (List.mem_cons_of_mem ri hx))⟩
  exact follows_post (fun _ _ hi => hi.1) hloop

/- What the walk over the map keeps: the pass knows what it knew, and has made no container yet
for the names that are left. -/
structure Walk (D : Desired) (l : List RunningInstance) (names : List String) (h : Log) : Prop where
  copied : copied h = some D
  listed : listed h = some l
  distinct : (l.map (·.instanceName)).Nodup
  nodup : names.Nodup
  unmade : ∀ m ∈ made h, m.1.metadata.name ∉ names

variable {D : Desired} {l : List RunningInstance}

theorem walk_ready {rest : List String} (hw : Walk D l (inst.metadata.name :: rest) h)
    (hi : D.map[inst.metadata.name]? = some inst)
    (hoff : ∀ r, (matchContainers D l).1[inst.metadata.name]? = some r → r.running = false) : Ready inst h where
  desired := by
    refine ⟨D, l, hw.copied, hw.listed, hi, ?_⟩
    intro ri hri hn hc
    have hm := byName_claimed hw.distinct hri hc
    rw [hn] at hm
    exact hoff ri hm
  unmade := by
    intro m hm hn
    exact hw.unmade m hm (hn ▸ List.mem_cons_self)

theorem obeys_reconcileNamed {node : String} {errs : List String} {name : String} {rest : List String}
    (hw : Walk D l (name :: rest) h) :
    Obeys me (fun h' _ => Walk D l rest h') (reconcileNamed node D (matchContainers D l).1 errs name) h := by
  obtain ⟨hnot, hrest⟩ := List.nodup_cons.mp hw.nodup
  unfold reconcileNamed
  cases hi : D.map[name]? with
  | none =>
    exact ⟨hw.copied, hw.listed, hw.distinct, hrest, fun m hm hin => hw.unmade m hm (List.mem_cons_of_mem name hin)⟩
  | some i =>
    obtain rfl := D.keyed name i hi
    refine follows_bind (obeys_reconcileInstance node (walk_ready hw hi) ?_) ?_
    · intro r hr hoff
      exact ⟨D, l, hw.copied, hw.listed, (byName_some hr).1, fun _ => hoff⟩
    · intro h' r _ hg
      refine ⟨hg.1.trans hw.copied, hg.2.1.trans hw.listed, hw.distinct, hrest, ?_⟩
      intro m hm hin
      rcases hg.2.2 m hm with hold | hnew
      · exact hw.unmade m hold (List.mem_cons_of_mem _ hin)
      · rw [hnew] at hin
        exact hnot hin

theorem obeys_listed (node : String) (p : Pass) (hD : copied h = some D) (hl : listed h = some l)
    (hdist : (l.map (·.instanceName)).Nodup) (hm : made h = []) :
    Obeys me (fun _ _ => True) (do
      let errs ← removeOrphans (matchContainers D l).2
      let errs ← (p.order D.map.keys).foldlM (reconcileNamed node D (matchContainers D l).1) errs
      call (.pruneState D)
      pure (Except.ok errs : Except String (List String))) h := by
  have horphans : ∀ ri ∈ (matchContainers D l).2, Removable h ri := by
    intro ri hri
    obtain ⟨hmem, hnot⟩ := orphan_unclaimed hdist hri
    exact ⟨D, l, hD, hl, hmem, fun hc => absurd hc hnot⟩
  refine follows_bind (obeys_removeOrphans horphans) ?_
  intro h₁ errs _ hs
  have hwalk : Walk D l (p.order D.map.keys) h₁ := by
    refine ⟨hs.1.trans hD, hs.2.1.trans hl, hdist, (p.walks _).nodup_iff.mpr ?_, ?_⟩
    · exact Std.ExtTreeMap.nodup_keys
    · intro m hin
      rw [hs.2.2, hm] at hin
      exact absurd hin List.not_mem_nil
  refine follows_bind (follows_foldlM _ (fun (names : List String) (h' : Log) (_ : List String) => Walk D l names h')
    (fun name rest h' errs hw => obeys_reconcileNamed hw) _ errs h₁ hwalk) ?_
  intro h₂ errs' _ _
  exact follows_post (fun _ _ _ => trivial)
    (obeys_free (only_bind (only_call rfl) fun _ => trivial))

theorem obeys_reconcile (node : String) (p : Pass) (hm : made h = []) :
    Obeys me (fun _ _ => True) (reconcile node p) h := by
  refine follows_call fun w _ => ⟨hm, fun c => ?_⟩
  have hcopied : copied ((host me).event c .snapshotDesired w :: h) = some w.mem.desired := rfl
  have hmade : made ((host me).event c .snapshotDesired w :: h) = [] := hm
  generalize (host me).event c .snapshotDesired w :: h = h₁ at hcopied hmade ⊢
  refine follows_call fun w₂ _ => ⟨hmade, fun c₂ => ?_⟩
  cases hf : c₂.fails with
  | true =>
    have hres : ((host me).exec c₂ .containerList w₂).1 = .error c₂.text := by simp [host, exec, hf]
    rw [hres]
    trivial
  | false =>
    have hres : ((host me).exec c₂ .containerList w₂).1 = .ok w₂.docker.list := by simp [host, exec, hf]
    have hlisted : listed ((host me).event c₂ .containerList w₂ :: h₁) = some w₂.docker.list := by
      unfold listed Machine.event
      rw [List.findSome?_cons, hres]
      rfl
    have hD : copied ((host me).event c₂ .containerList w₂ :: h₁) = some w.mem.desired := hcopied
    have hm₂ : made ((host me).event c₂ .containerList w₂ :: h₁) = [] := hmade
    rw [hres]
    exact obeys_listed node p hD hlisted (list_names _) hm₂

theorem obeys_turn (node : String) (p : Pass) : Obeys me (fun _ _ => True) (turn node p) [] := by
  refine follows_call fun w _ => ⟨trivial, fun c => ?_⟩
  have hmade : made [(host me).event c .haveSnapshot w] = [] := rfl
  split
  · exact obeys_reconcile node p hmade
  · trivial

end Obeys

end Klite.Agent
