import Klite.Safety.Instances

/-!
# A broken drain

After Drain has written DRAINING its stream may break.
-/

namespace Klite
open Lib

def Leaving (w : World) (n : String) : Prop :=
  phaseAt w n = some .draining ∨ phaseAt w n = some .notReady

-- The calls that go on after the stream broke: no scheduler, Uncordon, Apply or Delete.
def Call.afterDrain : Call → Bool
  | .register _ _ | .reportStatus _ _ | .drain _ _ _ _ | .workload _ _ | .nodeController | .scale _ _ =>
    true
  | _ => false

theorem afterDrain_modelled (g : Call) (h : g.afterDrain) : g.modelled := by
  cases g with
  | other p => cases h
  | _ => rfl

def Emptying (n : String) (w w' : World) : Prop := Bound w' n → Bound w n

structure DrainRun (cfg : Config) (n : String) (s : Klited) : Prop where
  sound : Sound cfg s
  running : Running (fun g => g.afterDrain) s
  past : Past (Emptying n) s

section Emptying
variable {cfg : Config} {n : String} {s : Klited} {l : Step}

theorem emptying_next (h0 : n ≠ "") (hs : DrainRun cfg n s) (hl : Admits (fun g => g.afterDrain) l) :
    Emptying n s.world (s.next (body cfg) l).world := by
  rintro ⟨inst, hi, hn⟩
  rcases next_instance hs.sound hs.running afterDrain_modelled hl hi with
    hold | ⟨hnew, -⟩ | ⟨t, c, th, cur, new, -, -, hA, hcur, hedit, hsame⟩
  · exact ⟨inst, hold, hn⟩
  · exact absurd (hn.symm.trans hnew) h0
  · refine ⟨cur, hcur, ?_⟩
    rw [hsame.1] at hn
    cases hedit with
    | report p req hcall hedit => rw [← (report_keeps hedit).1, hn]
    | retired order passes reason hcall hready hnew => rw [← hn, hnew]; rfl
    | placed nodes node hcall => rw [hcall] at hA; cases hA
    | refused pin hcall => rw [hcall] at hA; cases hA

theorem drainRun_next (h0 : n ≠ "") (hs : DrainRun cfg n s) (hl : Admits (fun g => g.afterDrain) l) :
    DrainRun cfg n (s.next (body cfg) l) :=
  ⟨sound_next l hs.sound, running_next hs.running hl,
    past_next (fun _ h => h) (fun h h' hb => h (h' hb)) (emptying_next h0 hs hl) hs.past⟩

theorem drainRun_start (cfg : Config) (n : String) (w : World) : DrainRun cfg n (start w) :=
  ⟨sound_start w, fun th hth => (by cases hth), fun u th hu => (by cases hu)⟩

theorem not_bound_of_listed (hs : DrainRun cfg n s) {t : ℕ} {th : Proc} (hth : s.threads[t]? = some th)
    {insts : List Instance} (hl : lastListed .inst th.hist = some insts) (hc : boundCount insts n = 0) :
    ¬ Bound s.world n := by
  intro hb
  obtain ⟨e, he, rfl⟩ := lastListed_listing
    (fun e he => ((hs.sound.recorded th (List.mem_of_getElem? hth)).1 e he).2) hl
  exact not_bound_of_count hc (hs.past t th hth e he hb)

end Emptying

theorem phaseTransition_leaving {st st' : NodeStatus} {silence : Int} {count : ℕ} {pd : Bool}
    (h : phaseTransition st silence count pd = some st') (hc : count ≠ 0) :
    st'.phase = .draining ∨ st'.phase = .notReady := by
  unfold phaseTransition at h
  split at h
  · rw [← Option.some.inj h]
    exact Or.inr rfl
  · split at h
    · rw [← Option.some.inj h]
      exact Or.inl rfl
    · split at h
      · rename_i hd
        exact absurd hd.2 hc
      · cases h

theorem observedStatus_leaving {st : NodeStatus} (silence : Int) {count : ℕ} (pd : Bool)
    (hst : st.phase = .draining ∨ st.phase = .notReady) (hc : count ≠ 0) :
    (observedStatus st silence count pd).phase = .draining ∨
      (observedStatus st silence count pd).phase = .notReady := by
  unfold observedStatus
  dsimp only
  cases h : phaseTransition st silence count pd with
  | none => rw [Option.getD_none]; exact hst
  | some st' => rw [Option.getD_some]; exact phaseTransition_leaving h hc

/- While the node holds an instance, Register writes no record of it, and a heartbeat
writes none over NOT_READY. -/
def NoReturn (n : String) (s : Klited) : Step → Prop
  | .step t _ => ∀ (th : Proc) (o : Node) (rev : Int), s.Calls t th (.put .node o rev) → Bound s.world n →
      (∀ p req, th.tag = .register p req → req.node ≠ n) ∧
      (∀ p req, th.tag = .reportStatus p req → req.node = n → phaseAt s.world n ≠ some .notReady)
  | _ => True

def DrainCond (n : String) (s : Klited) (l : Step) : Prop :=
  Admits (fun g => g.afterDrain) l ∧ NoReturn n s l

section Kept
variable {cfg : Config} {n : String} {s : Klited}

theorem edit_leaving (hs : DrainRun cfg n s) {t : ℕ} {th : Proc} (hth : s.threads[t]? = some th)
    (hA : th.tag.afterDrain) {cur new : Node} (hn : cur.metadata.name = n)
    (hr : (rights cfg th.tag).edit .node th.hist s.world cur new) (hb : Bound s.world n)
    (hcur : cur.phase = .draining ∨ cur.phase = .notReady) (hreg : ∀ p req, th.tag = .register p req → req.node ≠ n)
    (hrep : ∀ p req, th.tag = .reportStatus p req → req.node = n → cur.phase ≠ .notReady) :
    new.phase = .draining ∨ new.phase = .notReady := by
  cases htag : th.tag with
  | register p req =>
    rw [htag] at hr
    exact absurd (hr.1.symm.trans hn) (hreg p req htag)
  | reportStatus p req =>
    rw [htag] at hr
    obtain ⟨hname, ⟨unix, adv, rfl⟩ | ⟨i, -, -, rfl⟩ | ⟨rfl, -⟩⟩ := hr
    · have hd : cur.phase = .draining := hcur.resolve_right (hrep p req htag (hname.symm.trans hn))
      refine Or.inl ?_
      show stampPhase cur.phase = .draining
      rw [hd]
      rfl
    · exact hcur
    · exact hcur
  | drain node force order polls =>
    rw [htag] at hr
    obtain ⟨-, rfl⟩ := hr
    exact Or.inl rfl
  | nodeController =>
    rw [htag] at hr
    obtain ⟨insts, hl, silence, rfl⟩ := hr
    have hc : boundCount insts cur.metadata.name ≠ 0 := by
      intro hc
      rw [hn] at hc
      exact not_bound_of_listed hs hth hl hc hb
    rw [phase_status]
    exact observedStatus_leaving silence cur.pendingDelete hcur hc
  | scale workload replicas => rw [htag] at hr; exact hr.elim
  | workload order passes => rw [htag] at hr; exact hr.elim
  | _ => rw [htag] at hA; cases hA

theorem leaving_next {l : Step} (h0 : n ≠ "") (hs : DrainRun cfg n s) (hc : DrainCond n s l)
    (hinv : Bound s.world n → Leaving s.world n) (hb' : Bound (s.next (body cfg) l).world n) :
    Leaving (s.next (body cfg) l).world n := by
  have hb : Bound s.world n := emptying_next h0 hs hc.1 hb'
  have hold := hinv hb
  rcases next_store hs.sound hs.running afterDrain_modelled hc.1 with
    hsame | ⟨t, c, th, op, rfl, hcall, hA, -, -, hch⟩
  · unfold Leaving phaseAt
    rw [hsame]
    exact hold
  · rcases change_record hch .node n with
      hsame | ⟨o, -, hnone, -⟩ | ⟨cur, r, o, rfl, hl, hr, -, hpost⟩ | ⟨cur, r, -, hl, hr, -⟩
    · unfold Leaving phaseAt
      rw [hsame]
      exact hold
    · unfold Leaving phaseAt at hold
      rw [hnone] at hold
      rcases hold with h | h <;> cases h
    · have hcur : cur.phase = .draining ∨ cur.phase = .notReady := by
        unfold Leaving at hold
        rw [phaseAt_of_lookup hl] at hold
        simpa using hold
      obtain ⟨hreg, hrep⟩ := hc.2 th o r hcall hb
      have hnew := edit_leaving hs hcall.1 hA (lookup_some hl).1 hr hb hcur hreg fun p req ht hq hp => by
        refine hrep p req ht hq ?_
        rw [phaseAt_of_lookup hl]
        exact congrArg some hp
      unfold Leaving
      rw [phaseAt_of_lookup hpost]
      exact hnew.imp (fun h => congrArg some h) fun h => congrArg some h
    · obtain ⟨-, insts, hlast, hcount⟩ := node_remove (afterDrain_modelled _ hA) hr
      rw [show cur.metadata.name = n from (lookup_some hl).1] at hcount
      exact absurd hb (not_bound_of_listed hs hcall.1 hlast hcount)

end Kept

def brokenDrain (n : String) (force : Bool) (order : ℕ → List String → List String) (polls : ℕ) : List Step :=
  [.spawn (.drain n force order polls), .step 0 {}, .step 0 {}, .abandon 0]

/-- From a Drain that has written DRAINING and broke off, over every run in which Register
stays away from the node and no heartbeat revives it while it holds an instance: in every
state reached, while an instance is bound to the node its phase is DRAINING or NOT_READY. -/
theorem drain_leaving (cfg : Config) (w : World) (n : String) (force : Bool)
    (order : ℕ → List String → List String) (polls : ℕ) (ls : List Step)
    (hw : phaseAt ((start w).run (body cfg) (brokenDrain n force order polls)).world n = some .draining)
    (hc : Along (body cfg) (DrainCond n) ((start w).run (body cfg) (brokenDrain n force order polls)) ls)
    (hb : Bound ((start w).run (body cfg) (brokenDrain n force order polls ++ ls)).world n) :
    Leaving ((start w).run (body cfg) (brokenDrain n force order polls ++ ls)).world n := by
  have h0 : n ≠ "" := by
    rintro rfl
    unfold phaseAt at hw
    obtain ⟨⟨o, r⟩, hl, -⟩ := Option.map_eq_some_iff.mp hw
    exact absurd (lookup_some hl).2.2.1 (by decide)
  have hdrain : DrainRun cfg n ((start w).run (body cfg) (brokenDrain n force order polls)) :=
    run_invariant (body cfg) (DrainRun cfg n) (fun _ l => Admits (fun g => g.afterDrain) l)
      (fun _ _ hs hl => drainRun_next h0 hs hl) _ _ (drainRun_start cfg n w)
      ⟨rfl, trivial, trivial, trivial, trivial⟩
  rw [run_append] at hb ⊢
  generalize (start w).run (body cfg) (brokenDrain n force order polls) = s at hw hc hb hdrain
  have hinv := run_invariant (body cfg)
    (fun s => DrainRun cfg n s ∧ (Bound s.world n → Leaving s.world n)) (DrainCond n)
    (fun s l hi hl => ⟨drainRun_next h0 hi.1 hl.1, leaving_next h0 hi.1 hl hi.2⟩)
    s ls ⟨hdrain, fun _ => Or.inl hw⟩ hc
  exact hinv.2 hb

section Runs

def servingNode : Node where
  metadata := { name := "a" }
  status := some { phase := .ready, nodeIndex := 1, lastHeartbeatUnix := 7 }

def servingInstance : Instance where
  metadata := { name := "web-1a2b" }
  spec := { workload := "web", node := "a" }
  status := some { phase := .ready }

def servingWorld : World :=
  ⟨((Store.empty.put 7 .node servingNode revCreate).2.put 7 .inst servingInstance revCreate).2, 7 * second⟩

def reRegister : List Step :=
  [.spawn (.register .none { node := "a", clusterToken := "join" }), .step 1 {}, .step 1 {}, .step 1 {}]

theorem bound_of_lookup {w : World} {m n : String}
    (h : (w.store.lookup .inst m).any fun e => e.1.spec.node = n) : Bound w n := by
  obtain ⟨⟨inst, r⟩, hl, hn⟩ := Option.any_eq_true _ _ |>.mp h
  exact ⟨inst, holds_of_lookup hl, of_decide_eq_true hn⟩

theorem drain_stranded_by_register :
    phaseAt (tokenRun servingWorld (brokenDrain "a" false (fun _ l => l) 1)).world "a" =
      some .draining ∧ Bound (tokenRun servingWorld
      (brokenDrain "a" false (fun _ l => l) 1 ++ reRegister)).world "a" ∧
    phaseAt (tokenRun servingWorld
      (brokenDrain "a" false (fun _ l => l) 1 ++ reRegister)).world "a" = some .ready := by
  refine ⟨by decide +kernel, bound_of_lookup (m := "web-1a2b") ?_, by decide +kernel⟩
  decide +kernel

def drainCheck (s : Klited) (l : Step) : Bool :=
  admitsCheck Call.afterDrain l &&
  match l with
  | .step t _ =>
    match s.threads[t]?.map Thread.tag with
    | some (.register _ req) => req.node ≠ "a"
    | some (.reportStatus _ _) => phaseAt s.world "a" ≠ some .notReady
    | _ => true
  | _ => true

theorem drainCond_of_check (s : Klited) (l : Step) (h : drainCheck s l) : DrainCond "a" s l := by
  simp only [drainCheck, Bool.and_eq_true] at h
  refine ⟨admits_of_check h.1, ?_⟩
  cases l with
  | step t c =>
    intro th o rev hcall _
    have hset := h.2
    dsimp only at hset
    rw [hcall.1, Option.map_some] at hset
    refine ⟨fun p req ht => ?_, fun p req ht _ => ?_⟩
    · rw [ht] at hset
      exact of_decide_eq_true hset
    · rw [ht] at hset
      exact of_decide_eq_true hset
  | _ => trivial

def quietSteps : List Step :=
  [.spawn .nodeController, .step 1 {}, .step 1 {}, .step 1 {}, .step 1 {},
    .spawn (.reportStatus (.node "a") { node := "a" }), .step 2 {}, .step 2 {}, .step 2 {}]

theorem quiet_checked : checkAlong (body tokenConfig) drainCheck
    (tokenRun servingWorld (brokenDrain "a" false (fun _ l => l) 1)) quietSteps := by
  decide +kernel

theorem drain_leaving_quiet : Leaving (tokenRun servingWorld
      (brokenDrain "a" false (fun _ l => l) 1 ++ quietSteps)).world "a" :=
  drain_leaving tokenConfig servingWorld "a" false (fun _ l => l) 1 quietSteps (by decide +kernel)
    (along_of_check (body tokenConfig) drainCond_of_check _ _ quiet_checked)
    (bound_of_lookup (m := "web-1a2b") (by decide +kernel))

end Runs

end Klite
