import Klite.Safety.Instances

/-!
# A draining instance

`retire` marks an instance DRAINING, and reports of its agent come in afterwards.
-/

namespace Klite
open Lib

/- What the store's clients rely on about instances: one that no node runs is neither
READY nor DRAINING, and a uid is minted once. -/
structure InstancesMinted (w : World) : Prop where
  waiting : ∀ inst : Instance, Holds w.store .inst inst → inst.spec.node = "" →
    inst.phase ≠ .ready ∧ inst.phase ≠ .draining
  bounded : ∀ inst : Instance, Holds w.store .inst inst → inst.metadata.uid ≤ w.store.uids
  unique : ∀ i j : Instance, Holds w.store .inst i → Holds w.store .inst j →
    i.metadata.uid = j.metadata.uid → i.metadata.name = j.metadata.name

structure MintedRun (cfg : Config) (s : Klited) : Prop where
  sound : Sound cfg s
  running : Running (fun g => g.modelled) s
  minted : InstancesMinted s.world

section Minted
variable {cfg : Config} {s : Klited} {l : Step}

theorem waiting_edit (hinv : InstancesMinted s.world) {call : Call} {h : Log} {cur new : Instance}
    (hcur : Holds s.world.store .inst cur) (he : InstEdit call h cur new) (hn : new.spec.node = "") :
    new.phase ≠ .ready ∧ new.phase ≠ .draining := by
  cases he with
  | report p req hcall hedit =>
    obtain ⟨h0, u, -, st, -, -, -, hnode, rfl⟩ := hedit
    exact absurd (hnode.symm.trans hn) h0
  | retired order passes reason hcall hready hnew =>
    subst hnew
    exact absurd hready (hinv.waiting cur hcur hn).1
  | placed nodes node hcall hnode hlast hoff hnew =>
    subst hnew
    rcases boundTo_phase cur node with hp | ⟨-, hp⟩ <;> rw [hp]
    · exact hinv.waiting cur hcur hnode
    · exact ⟨by decide, by decide⟩
  | refused pin hcall hnode hnew =>
    subst hnew
    exact ⟨by show InstancePhase.pending ≠ .ready; decide, by show InstancePhase.pending ≠ .draining; decide⟩

section Next
variable (hs : MintedRun cfg s) (hl : Admits (fun g => g.modelled) l)
include hs hl

theorem uid_next {inst : Instance} (hi : Holds (s.next (body cfg) l).world.store .inst inst) :
    (∃ cur : Instance, Holds s.world.store .inst cur ∧ cur.metadata.uid = inst.metadata.uid ∧
      cur.metadata.name = inst.metadata.name) ∨ (inst.metadata.uid = s.world.store.uids + 1 ∧
      (s.next (body cfg) l).world.store.uids = s.world.store.uids + 1 ∧
      ∃ t c th o, l = .step t c ∧ s.Calls t th (.put .inst o revCreate) ∧ inst.metadata.name = o.metadata.name) := by
  rcases next_instance hs.sound hs.running (fun _ hg => hg) hl hi with
    hold | ⟨-, -, hu, hus, hput⟩ | ⟨t, c, th, cur, new, -, -, -, hcur, hedit, -, -, hu, hn⟩
  · exact Or.inl ⟨inst, hold, rfl, rfl⟩
  · exact Or.inr ⟨hu, hus, hput⟩
  · rw [instEdit_metadata hedit] at hu hn
    exact Or.inl ⟨cur, hcur, hu.symm, hn.symm⟩

theorem minted_next : InstancesMinted (s.next (body cfg) l).world := by
  have hgrow := next_uids hs.sound hs.running (fun _ hg => hg) hl
  refine ⟨?_, ?_, ?_⟩
  · intro inst hi hn
    rcases next_instance hs.sound hs.running (fun _ hg => hg) hl hi with
      hold | ⟨-, hp, -⟩ | ⟨t, c, th, cur, new, -, -, -, hcur, hedit, hspec, hst, -⟩
    · exact hs.minted.waiting inst hold hn
    · rw [hp]
      exact ⟨by decide, by decide⟩
    · rw [phase_of_status hst]
      rw [hspec] at hn
      exact waiting_edit hs.minted hcur hedit hn
  · intro inst hi
    rcases uid_next hs hl hi with ⟨cur, hcur, hu, -⟩ | ⟨hu, hus, -⟩
    · rw [← hu]
      exact le_trans (hs.minted.bounded cur hcur) hgrow
    · rw [hu, hus]
  · intro i j hi hj hij
    rcases uid_next hs hl hi with ⟨ci, hci, hui, hni⟩ | ⟨hui, -, t, c, th, o, he, hcall, hni⟩
    · have hb := hs.minted.bounded ci hci
      rcases uid_next hs hl hj with ⟨cj, hcj, huj, hnj⟩ | ⟨huj, -⟩
      · rw [← hni, ← hnj]
        exact hs.minted.unique ci cj hci hcj (hui.trans (hij.trans huj.symm))
      · exfalso
        rw [hui, hij, huj] at hb
        exact Nat.not_succ_le_self _ hb
    · rcases uid_next hs hl hj with ⟨cj, hcj, huj, -⟩ | ⟨-, -, t', c', th', o', he', hcall', hnj⟩
      · exfalso
        have hb := hs.minted.bounded cj hcj
        rw [huj, ← hij, hui] at hb
        exact Nat.not_succ_le_self _ hb
      · -- One step makes one put.
        obtain ⟨rfl, rfl⟩ := Label.step.inj (he.symm.trans he')
        obtain ⟨-, hop⟩ := calls_inj hcall hcall'
        injection hop with _ ho
        rw [hni, hnj, ho]

theorem mintedRun_next : MintedRun cfg (s.next (body cfg) l) :=
  ⟨sound_next l hs.sound, running_next hs.running hl, minted_next hs hl⟩

end Next

end Minted

/- Reports that a drain can take: the agent sees it drain or fail, or does not know yet
that the stored phase is DRAINING. -/
def DrainReport (stored reported : InstancePhase) : Prop :=
  reported = .draining ∨ reported = .failed ∨ (stored = .draining ∧ servingPhase reported)

theorem effectiveStatus_drain {stored : InstancePhase} {st : InstanceStatus} (h : DrainReport stored st.phase) :
    (effectiveStatus stored st).phase = .draining ∨ (effectiveStatus stored st).phase = .failed := by
  unfold effectiveStatus
  split
  · exact Or.inl rfl
  · rename_i hne
    rcases h with h | h | h
    · exact Or.inl h
    · exact Or.inr h
    · exact absurd h hne

/- Every report for the uid that is about to be written is one a drain can take. -/
def ReportsForward (u : Uid) (s : Klited) : Step → Prop
  | .step t _ => ∀ (th : Proc) (p : Principal) (req : ReportStatusRequest) (o : Instance) (rev : Int)
      (cur : Instance), s.Calls t th (.put .inst o rev) → th.tag = .reportStatus p req →
      Holds s.world.store .inst cur → cur.metadata.name = o.metadata.name → cur.metadata.uid = u →
      ∀ upd ∈ req.instances, upd.uid = u → ∀ st, upd.status = some st → DrainReport cur.phase st.phase
  | _ => True

structure Draining (u : Uid) (w : World) : Prop where
  forward : ∀ inst : Instance, Holds w.store .inst inst → inst.metadata.uid = u →
    (inst.phase = .draining ∨ inst.phase = .failed) ∧ inst.spec.node ≠ ""
  minted : u ≤ w.store.uids

section Forward
variable {cfg : Config} {s : Klited} {l : Step} {u : Uid}

theorem draining_next (hs : MintedRun cfg s) (hl : Admits (fun g => g.modelled) l)
    (hrep : ReportsForward u s l) (hd : Draining u s.world) : Draining u (s.next (body cfg) l).world := by
  refine ⟨?_, le_trans hd.minted (next_uids hs.sound hs.running (fun _ hg => hg) hl)⟩
  intro inst hi hu
  rcases next_instance hs.sound hs.running (fun _ hg => hg) hl hi with
    hold | ⟨-, -, hnew, -⟩ | ⟨t, c, th, cur, new, rfl, hcall, -, hcur, hedit, hspec, hst, huid, -⟩
  · exact hd.forward inst hold hu
  · exfalso
    have hb := hd.minted
    rw [← hu, hnew] at hb
    exact Nat.not_succ_le_self _ hb
  · have hmeta := instEdit_metadata hedit
    have hucur : cur.metadata.uid = u := by rw [← hmeta, ← huid, hu]
    obtain ⟨hph, hbound⟩ := hd.forward cur hcur hucur
    rw [phase_of_status hst, hspec]
    cases hedit with
    | report p req htag hedit =>
      obtain ⟨-, upd, hupd, st, hust, -, hui, -, rfl⟩ := hedit
      have hrepd := hrep th p req _ _ cur hcall htag hcur rfl hucur upd hupd (hui.symm.trans hucur) st hust
      exact ⟨effectiveStatus_drain hrepd, hbound⟩
    | retired order passes reason htag hready hnew =>
      rw [hready] at hph
      rcases hph with hph | hph <;> cases hph
    | placed nodes node htag hnode => exact absurd hnode hbound
    | refused pin htag hnode => exact absurd hnode hbound

end Forward

/-- Once an instance has been DRAINING, over every run whose reports for its uid are ones a
drain can take, in every state reached: the instance with that uid is DRAINING or FAILED,
or no longer stored. -/
theorem drain_forward (cfg : Config) (w : World) (ls₁ ls₂ : List Step) (i : Instance) (hw : InstancesMinted w)
    (h₁ : Along (body cfg) (fun _ l => Admits (fun g => g.modelled) l) (start w) ls₁)
    (hi : Holds ((start w).run (body cfg) ls₁).world.store .inst i) (hd : i.phase = .draining) (h₂ : Along (body cfg)
      (fun s l => Admits (fun g => g.modelled) l ∧ ReportsForward i.metadata.uid s l)
      ((start w).run (body cfg) ls₁) ls₂) :
    ∀ j : Instance, Holds ((start w).run (body cfg) (ls₁ ++ ls₂)).world.store .inst j →
      j.metadata.uid = i.metadata.uid → j.phase = .draining ∨ j.phase = .failed := by
  have hrun := run_invariant (body cfg) (MintedRun cfg) (fun _ l => Admits (fun g => g.modelled) l)
    (fun _ _ hs hl => mintedRun_next hs hl) (start w) ls₁
    ⟨sound_start w, fun th hth => (by cases hth), hw⟩ h₁
  rw [run_append]
  generalize (start w).run (body cfg) ls₁ = s at hi h₂ hrun
  have hstart : Draining i.metadata.uid s.world := by
    refine ⟨fun j hj hu => ?_, hrun.minted.bounded i hi⟩
    -- The uid is stored once, and an unbound instance is not DRAINING.
    obtain rfl : j = i := listing_name_inj (mem_listing.mpr hj) (mem_listing.mpr hi)
      (hrun.minted.unique j i hj hi hu)
    exact ⟨Or.inl hd, fun hn => (hrun.minted.waiting j hj hn).2 hd⟩
  have hinv := run_invariant (body cfg)
    (fun s => MintedRun cfg s ∧ Draining i.metadata.uid s.world)
    (fun s l => Admits (fun g => g.modelled) l ∧ ReportsForward i.metadata.uid s l)
    (fun s l h hl => ⟨mintedRun_next h.1 hl.1, draining_next h.1 hl.1 hl.2 h.2⟩) s ls₂ ⟨hrun, hstart⟩ h₂
  exact fun j hj hu => (hinv.2.forward j hj hu).1

section Runs

def shrunkWorkload : Workload where
  metadata := { name := "web" }
  spec := { template := { containers := [{}] } }

def leftInstance : Instance where
  metadata := { name := "web-1a2b" }
  spec := { workload := "web", node := "a", templateHash := "h" }
  status := some { phase := .ready }

def shrunkWorld : World :=
  ⟨(((Store.empty.put 7 .inst leftInstance revCreate).2.put 7 .workload shrunkWorkload revCreate).2.put 7
    .node { metadata := { name := "a" } } revCreate).2, 7 * second⟩

def reports (phase : InstancePhase) : Call :=
  .reportStatus (.node "a") { node := "a", instances := [⟨"web-1a2b", 1, some { phase := phase }⟩] }

def instAt (w : World) (n : String) : Option (Uid × InstancePhase) :=
  (w.store.lookup .inst n).map fun e => (e.1.metadata.uid, e.1.phase)

theorem holds_of_instAt {w : World} {n : String} {u : Uid} {p : InstancePhase}
    (h : instAt w n = some (u, p)) : ∃ i : Instance, Holds w.store .inst i ∧ i.metadata.uid = u ∧ i.phase = p := by
  obtain ⟨⟨i, r⟩, hl, he⟩ := Option.map_eq_some_iff.mp h
  obtain ⟨hu, hp⟩ := Prod.mk.inj he
  exact ⟨i, holds_of_lookup hl, hu, hp⟩

def retireSteps : List Step :=
  [.spawn (.workload (fun _ names => names) 1), .step 0 {}, .step 0 {}, .step 0 {}, .step 0 {}]

/- Its container fails, and after a restart the agent starts it again: it reads a
stored FAILED and no longer knows of the drain. -/
def revivedSteps : List Step :=
  [.spawn (reports .failed), .step 1 {}, .step 1 {}, .spawn (reports .ready), .step 2 {}, .step 2 {}]

theorem drain_undone_by_report :
    instAt (plainRun shrunkWorld retireSteps).world "web-1a2b" = some (1, .draining) ∧
    instAt (plainRun shrunkWorld (retireSteps ++ revivedSteps)).world "web-1a2b" =
      some (1, .ready) :=
  ⟨by decide +kernel, by decide +kernel⟩

def mintedCheck (w : World) : Bool :=
  (w.store.listing .inst).all fun i =>
    (i.spec.node ≠ "" || (i.phase ≠ .ready && i.phase ≠ .draining)) && i.metadata.uid ≤ w.store.uids &&
    (w.store.listing .inst).all fun j => i.metadata.uid ≠ j.metadata.uid || i.metadata.name = j.metadata.name

theorem minted_of_check {w : World} (h : mintedCheck w) : InstancesMinted w := by
  unfold mintedCheck at h
  simp only [List.all_eq_true, Bool.and_eq_true, Bool.or_eq_true, decide_eq_true_eq] at h
  refine ⟨fun i hi hn => ?_, fun i hi => (h i (mem_listing.mpr hi)).1.2, fun i j hi hj hu => ?_⟩
  · exact (h i (mem_listing.mpr hi)).1.1.resolve_left (not_not.mpr hn)
  · exact ((h i (mem_listing.mpr hi)).2 j (mem_listing.mpr hj)).resolve_left (not_not.mpr hu)

def forwardCheck (s : Klited) (l : Step) : Bool :=
  admitsCheck Call.modelled l &&
  match l with
  | .step t _ =>
    match s.threads[t]?.map Thread.tag with
    | some (.reportStatus _ req) => req.instances.all fun upd =>
        match upd.status with
        | some st => st.phase = .failed || st.phase = .draining
        | none => true
    | _ => true
  | _ => true

theorem forward_of_check (u : Uid) (s : Klited) (l : Step) (h : forwardCheck s l) :
    Admits (fun g => g.modelled) l ∧ ReportsForward u s l := by
  simp only [forwardCheck, Bool.and_eq_true] at h
  refine ⟨admits_of_check h.1, ?_⟩
  cases l with
  | step t c =>
    intro th p req o rev cur hcall htag _ _ _ upd hupd _ st hst
    have hset := h.2
    dsimp only at hset
    rw [hcall.1, Option.map_some, htag] at hset
    have hu := List.all_eq_true.mp hset upd hupd
    rw [hst] at hu
    simp only [Bool.or_eq_true, decide_eq_true_eq] at hu
    rcases hu with hu | hu
    · exact Or.inr (Or.inl hu)
    · exact Or.inl hu
  | _ => trivial

def failedSteps : List Step :=
  [.spawn (reports .draining), .step 1 {}, .step 1 {}, .spawn (reports .failed), .step 2 {}, .step 2 {}]

theorem retire_checked :
    checkAlong (body plainConfig) (fun _ => admitsCheck Call.modelled) (start shrunkWorld) retireSteps ∧
    checkAlong (body plainConfig) forwardCheck (plainRun shrunkWorld retireSteps)
      failedSteps := by
  decide +kernel

theorem drain_forward_failed : ∃ i : Instance,
    Holds (plainRun shrunkWorld retireSteps).world.store .inst i ∧ i.phase = .draining ∧
    ∀ j : Instance,
      Holds (plainRun shrunkWorld (retireSteps ++ failedSteps)).world.store .inst j →
      j.metadata.uid = i.metadata.uid → j.phase = .draining ∨ j.phase = .failed := by
  have hat : instAt (plainRun shrunkWorld retireSteps).world "web-1a2b" =
      some (1, .draining) := by decide +kernel
  obtain ⟨i, hi, -, hd⟩ := holds_of_instAt hat
  refine ⟨i, hi, hd, drain_forward plainConfig shrunkWorld retireSteps failedSteps i
    (minted_of_check (by decide +kernel)) ?_ hi hd ?_⟩
  · exact along_of_check (body plainConfig) (fun _ _ h => admits_of_check h) _ _ retire_checked.1
  · exact along_of_check (body plainConfig) (forward_of_check i.metadata.uid) _ _ retire_checked.2

end Runs

end Klite
