import Klite.Safety.NodeDrain

/-!
# Whose instances are evacuated

The node controller moves a node to NOT_READY in its own copy of the record and goes on to
evacuate by that copy.
-/

namespace Klite
open Lib

def clockRead : Event Op Res World → Option Int
  | ⟨.now, t, _, _⟩ => some t
  | _ => none

def lastNow (h : Log) : Int := (h.findSome? clockRead).getD 0

theorem lastNow_event (c : Choice) (w : World) (h : Log) : lastNow (klited.event c .now w :: h) = w.now := rfl

def silenceSeen (h : Log) (st : NodeStatus) : Int :=
  if st.lastHeartbeatUnix > 0 then (lastNow h / second - st.lastHeartbeatUnix) * second else 0

theorem silenceSeen_beat (h : Log) {st st' : NodeStatus} (hb : st.lastHeartbeatUnix = st'.lastHeartbeatUnix) :
    silenceSeen h st = silenceSeen h st' := by
  unfold silenceSeen
  rw [hb]

def Overdue (h : Log) (st : NodeStatus) : Prop := silenceSeen h st > heartbeatTimeout + evacuateAfter

instance (h : Log) (st : NodeStatus) : Decidable (Overdue h st) := inferInstanceAs (Decidable (_ > _))

-- A write of NOT_READY over the listed record that the store acknowledged.
def declaresLost (node : Node) : Event Op Res World → Bool
  | ⟨.put .node o rev, .ok _, _, _⟩ =>
    o.metadata.name = node.metadata.name ∧ rev = node.metadata.resourceVersion ∧ Node.phase o = .notReady
  | _ => false

/- What a pass must know of the node whose instances it deletes: it listed the node
NOT_READY, or it wrote NOT_READY itself, over the very record it listed. -/
def KnownLost (h : Log) (n : String) : Prop :=
  ∃ nodes node, lastListed .node h = some nodes ∧ node ∈ nodes ∧ node.metadata.name = n ∧
    (node.phase = .notReady ∨
      ∃ e ∈ h, declaresLost node e ∧ e.pre.store.lookup .node n = some (node, node.metadata.resourceVersion))

def DeletesLost (h : Log) (m : String) (r : Int) : Prop :=
  ∃ insts inst, lastListed .inst h = some insts ∧ inst ∈ insts ∧ inst.metadata.name = m ∧
    inst.metadata.resourceVersion = r ∧ KnownLost h inst.spec.node

theorem observedStatus_heartbeat (st : NodeStatus) (silence : Int) (count : ℕ) (pd : Bool) :
    (observedStatus st silence count pd).lastHeartbeatUnix = st.lastHeartbeatUnix := by
  obtain ⟨phase, unschedulable, h⟩ := observedStatus_frame st silence count pd
  rw [h]

theorem observedStatus_still {st : NodeStatus} {silence : Int} {count : ℕ} {pd : Bool}
    (h : phaseTransition st silence count pd = none) : (observedStatus st silence count pd).phase = st.phase := by
  unfold observedStatus
  rw [h, Option.getD_none]

/- The write an evacuation rests on: NOT_READY over a node listed in another phase, and
silent for long enough. -/
structure Condemns (h : Log) (node o : Node) : Prop where
  listed : ∃ nodes, lastListed .node h = some nodes ∧ node ∈ nodes
  name : o.metadata.name = node.metadata.name
  before : node.phase ≠ .notReady
  after : o.phase = .notReady
  overdue : Overdue h o.getStatus

def Declared (h : Log) (node : Node) : Prop :=
  ∃ c w o h', (klited.event c (.put .node o node.metadata.resourceVersion) w :: h') <:+ h ∧ Condemns h' node o ∧
    ((∃ e, (exec c (.put .node o node.metadata.resourceVersion) w).1 = .error e ∧ e.isConflict) ∨
      ((∃ rev, (exec c (.put .node o node.metadata.resourceVersion) w).1 = .ok rev) ∧ Holds w.store .node node))

def Excused (h : Log) (n : String) : Prop :=
  ∃ nodes node, lastListed .node h = some nodes ∧ node ∈ nodes ∧ node.metadata.name = n ∧
    (node.phase = .notReady ∨ Declared h node)

theorem excused_same {h h' : Log} {n : String} (hs : SameLists h h') (he : Excused h n) : Excused h' n := by
  obtain ⟨nodes, node, hl, hm, hn, hlost | ⟨c, w, o, h₀, hsuf, hrest⟩⟩ := he
  · exact ⟨nodes, node, (hs.2 .node).trans hl, hm, hn, Or.inl hlost⟩
  · exact ⟨nodes, node, (hs.2 .node).trans hl, hm, hn, Or.inr ⟨c, w, o, h₀, hsuf.trans hs.1, hrest⟩⟩

-- Every instance a pass deletes was listed on a node it has an excuse for.
def evacuationSpec (h : Log) (_ : World) : Op → Prop
  | .deleteIfRevision .inst m r => ∃ insts inst, lastListed .inst h = some insts ∧ inst ∈ insts ∧
      inst.metadata.name = m ∧ inst.metadata.resourceVersion = r ∧ Excused h inst.spec.node
  | _ => True

abbrev Evacuates {α : Type} (p : Code α) (h : Log) : Prop := Follows klited evacuationSpec (fun h' _ => SameLists h h') p h

section Pass
variable {h : Log} {insts : List Instance} {nodes : List Node} {node : Node}

theorem excused_evacuateLost (hi : lastListed .inst h = some insts) {st : NodeStatus} {silence : Int}
    (hex : st.phase = .notReady → silence > heartbeatTimeout + evacuateAfter → Excused h node.metadata.name)
    (errs : List String) :
    Evacuates (evacuateLost insts node st silence errs) h := by
  unfold evacuateLost
  split
  · rename_i hlost
    have hexc := hex hlost.1 hlost.2
    refine obeys_loop _ errs ?_
    intro inst hm errs' h' hsame
    obtain ⟨hmem, hon⟩ := List.mem_filter.mp hm
    refine follows_call fun w _ => ⟨?_, fun c => ?_⟩
    · refine ⟨insts, inst, (hsame.2 .inst).trans hi, hmem, rfl, rfl, ?_⟩
      rw [of_decide_eq_true hon]
      exact excused_same hsame hexc
    · have hs : SameLists h' (klited.event c
          (.deleteIfRevision .inst inst.metadata.name inst.metadata.resourceVersion) w :: h') :=
        sameLists_event nofun
      split
      · exact hs
      · split <;> exact hs
  · exact sameLists_refl h

theorem excused_removeNode (errs : List String) :
    Evacuates (removeNode node errs) h := by
  refine follows_call fun w _ => ⟨trivial, fun c => ?_⟩
  have hs : SameLists h (klited.event c
      (.deleteIfRevision .node node.metadata.name node.metadata.resourceVersion) w :: h) :=
    sameLists_event nofun
  split
  · exact hs
  · split <;> exact hs

theorem excused_writeObserved (hi : lastListed .inst h = some insts) (hn : Listed h .node nodes)
    (hm : node ∈ nodes) {silence : Int} (hsil : silence = silenceSeen h node.getStatus) (count : ℕ)
    (errs : List String) :
    Evacuates (writeObserved insts node silence count errs) h := by
  unfold writeObserved
  dsimp only
  split
  · rename_i hclean
    refine excused_evacuateLost hi (fun hph _ => ?_) errs
    rw [observedStatus_still hclean.1] at hph
    exact ⟨nodes, node, hn.last, hm, rfl, Or.inl hph⟩
  · generalize hst : observedStatus node.getStatus silence count node.pendingDelete = st
    generalize ho : ({ node with status := some st } : Node) = o
    have hname : o.metadata.name = node.metadata.name := by rw [← ho]
    have hphase : o.phase = st.phase := by rw [← ho, phase_status]
    refine follows_put (fun _ _ => trivial) ?_
    intro c w r ha hr
    have hs : SameLists h (klited.event c (.put .node o node.metadata.resourceVersion) w :: h) :=
      sameLists_event nofun
    -- Whether or not the write took, the copy's phase decides; the answer is what the excuse records.
    have hgo : ((∃ e, r = .error e ∧ e.isConflict) ∨ (∃ rev, r = .ok rev) ∧ Holds w.store .node node) →
        Follows klited evacuationSpec (fun h' _ => SameLists h h') (evacuateLost insts node st silence errs)
          (klited.event c (.put .node o node.metadata.resourceVersion) w :: h) := by
      intro hans
      rw [← hr] at hans
      refine follows_post (fun h' _ hq => sameLists_trans hs hq)
        (excused_evacuateLost ((hs.2 .inst).trans hi) (fun hph hlong => ?_) errs)
      refine ⟨nodes, node, (hs.2 .node).trans hn.last, hm, rfl, ?_⟩
      by_cases hready : node.phase = .notReady
      · exact Or.inl hready
      · refine Or.inr ⟨c, w, o, h, List.suffix_refl _,
          ⟨⟨nodes, hn.last, hm⟩, hname, hready, hphase.trans hph, ?_⟩, hans⟩
        have hbeat : o.getStatus.lastHeartbeatUnix = node.getStatus.lastHeartbeatUnix := by
          rw [← observedStatus_heartbeat node.getStatus silence count node.pendingDelete, hst, ← ho]
          rfl
        unfold Overdue
        rw [silenceSeen_beat h hbeat, ← hsil]
        exact hlong
    cases r with
    | ok rev => exact hgo (Or.inr ⟨⟨rev, rfl⟩, (put_ok (k := .node) (hn.seen node hm) ha hname hr).1⟩)
    | error e =>
      dsimp only
      split
      · rename_i hconf
        exact hgo (Or.inl ⟨e, rfl, hconf⟩)
      · exact hs

theorem excused_reconcileNode (hi : lastListed .inst h = some insts) (hn : Listed h .node nodes)
    (hm : node ∈ nodes) (errs : List String) :
    Evacuates (reconcileNode insts errs node) h := by
  unfold reconcileNode
  dsimp only
  split
  · exact excused_removeNode errs
  · refine follows_bind
      (P := fun h' silence => SameLists h h' ∧ silence = silenceSeen h' node.getStatus) ?_ ?_
    · unfold silenceOf
      split
      · rename_i hbeat
        refine follows_call fun w _ => ⟨trivial, fun c => ?_⟩
        refine ⟨sameLists_event nofun, ?_⟩
        unfold silenceSeen
        rw [if_pos hbeat, lastNow_event]
        rfl
      · rename_i hbeat
        refine ⟨sameLists_refl h, ?_⟩
        unfold silenceSeen
        rw [if_neg hbeat]
    · intro h' silence _ hq
      exact follows_post (fun h'' _ hq' => sameLists_trans hq.1 hq')
        (excused_writeObserved ((hq.1.2 .inst).trans hi) (listed_same hn hq.1) hm hq.2 _ errs)

theorem excused_nodeReconcile : Follows klited evacuationSpec (fun _ _ => True) nodeReconcile h := by
  refine follows_list (fun _ => trivial) (fun _ _ _ _ _ => trivial) ?_
  intro c₁ w₁ _ hr₁
  refine follows_list (fun _ => trivial) (fun _ _ _ _ _ => trivial) ?_
  intro c₂ w₂ _ hr₂
  have hnodes := listed_other (listed_event hr₁ (h := h)) .inst (by decide) c₂ w₂
  refine follows_post (fun _ _ _ => trivial) (obeys_loop _ _ ?_)
  intro node hm errs h' hsame
  exact excused_reconcileNode (listed_same (listed_event hr₂) hsame).last (listed_same hnodes hsame) hm errs

end Pass

def passSpec : Call → Log → World → Op → Prop
  | .nodeController => evacuationSpec
  | _ => fun _ _ _ => True

theorem follows_pass (cfg : Config) (g : Call) (h : Log) :
    Follows klited (passSpec g) (fun _ _ => True) (body cfg g) h := by
  cases g with
  | nodeController =>
    exact follows_bind excused_nodeReconcile fun _ _ _ _ => trivial
  | _ => exact follows_any (fun _ _ _ => trivial) (fun _ _ => trivial) _ h

/- When a pass makes the write its evacuation rests on, the stored record is still the one
it listed. -/
def Unmoved (s : Klited) : Step → Prop
  | .step t _ => ∀ (th : Proc) (o node : Node), s.Calls t th (.put .node o node.metadata.resourceVersion) →
      th.tag = .nodeController → Condemns th.hist node o → Holds s.world.store .node node
  | _ => True

-- No pass has been told of a conflict on such a write.
def Unrefused (s : Klited) : Prop :=
  ∀ th ∈ s.threads, th.tag = .nodeController → ∀ c w (o node : Node) h' e,
    (klited.event c (.put .node o node.metadata.resourceVersion) w :: h') <:+ th.hist → Condemns h' node o →
    (exec c (.put .node o node.metadata.resourceVersion) w).1 = .error e → e.isConflict = false

theorem put_held_refusal {k : Kind} {o cur : k.Obj} {c : Choice} {w : World} {e : StoreErr}
    (hcur : Holds w.store k cur) (hn : (metaOf o).name = (metaOf cur).name)
    (hr : (exec c (.put k o (metaOf cur).resourceVersion) w).1 = .error e) : e.isConflict = false := by
  cases hf : c.fault with
  | none =>
    obtain ⟨hv, hex⟩ := exec_put_held (c := c) hf hcur hn
    rw [hex] at hr
    cases hr
  | lost =>
    simp only [exec, answer, hf] at hr
    rw [← Except.error.inj hr]
    rfl
  | unacked =>
    simp only [exec, answer, hf] at hr
    rw [← Except.error.inj hr]
    rfl

section Runs
variable {cfg : Config} {s : Klited}

theorem unrefused_next {l : Step} (hs : Unrefused s) (hl : Unmoved s l) : Unrefused (s.next (body cfg) l) := by
  intro th' hm htag c w o node h' e hsuf hcon hr
  obtain ⟨u, hu⟩ := List.mem_iff_getElem?.mp hm
  rcases next_thread (body cfg) hu with
    ⟨th, hth, ht, hh, -⟩ | ⟨g, -, rfl⟩ | ⟨c', th, op, k, rfl, hth, hp, rfl⟩
  · exact hs th (List.mem_of_getElem? hth) (ht ▸ htag) c w o node h' e (hh ▸ hsuf) hcon hr
  · exact absurd (List.IsSuffix.length_le hsuf) (by simp)
  · rcases List.suffix_cons_iff.mp hsuf with heq | hold
    · -- The newest event: the write was made in this very state.
      obtain ⟨hev, rfl⟩ := List.cons.inj heq
      have hop : op = .put .node o node.metadata.resourceVersion := (congrArg Event.op hev).symm
      have hw : s.world = w := (congrArg Event.pre hev).symm
      have hcall : s.Calls u th (.put .node o node.metadata.resourceVersion) := ⟨hth, by rw [← hop]; exact ⟨k, hp⟩⟩
      have hheld := hl th o node hcall htag hcon
      rw [hw] at hheld
      exact put_held_refusal (k := .node) hheld hcon.name hr
    · exact hs th (List.mem_of_getElem? hth) htag c w o node h' e hold hcon hr

structure EvacRun (s : Klited) : Prop where
  recorded : Recorded s
  conforms : Conforms passSpec (fun _ _ _ => True) s
  unrefused : Unrefused s

theorem evacRun_next (l : Step) (hs : EvacRun s) (hl : Unmoved s l) : EvacRun (s.next (body cfg) l) :=
  ⟨recorded_next l hs.recorded, conforms_next l (fun g _ => follows_pass cfg g []) hs.recorded hs.conforms,
    unrefused_next hs.unrefused hl⟩

theorem declaresLost_event {c : Choice} {w : World} {o node : Node} {rev : Int}
    (hr : (exec c (.put .node o node.metadata.resourceVersion) w).1 = .ok rev)
    (hn : o.metadata.name = node.metadata.name) (hp : o.phase = .notReady) :
    declaresLost node (klited.event c (.put .node o node.metadata.resourceVersion) w) := by
  unfold Machine.event
  change declaresLost node ⟨.put .node o node.metadata.resourceVersion, (exec c _ w).1, _, _⟩
  rw [hr]
  simp [declaresLost, hn, hp]

theorem knownLost_of_excused (hs : EvacRun s) {th : Proc} (hm : th ∈ s.threads) (htag : th.tag = .nodeController)
    {n : String} (he : Excused th.hist n) : KnownLost th.hist n := by
  obtain ⟨nodes, node, hl, hmem, rfl, hlost | ⟨c, w, o, h', hsuf, hcon, hans⟩⟩ := he
  · exact ⟨nodes, node, hl, hmem, rfl, Or.inl hlost⟩
  · rcases hans with ⟨e, hr, hconf⟩ | ⟨⟨rev, hr⟩, hheld⟩
    · have hno := hs.unrefused th hm htag c w o node h' e hsuf hcon hr
      rw [hno] at hconf
      cases hconf
    · exact ⟨nodes, node, hl, hmem, rfl, Or.inr ⟨_, hsuf.subset List.mem_cons_self,
        declaresLost_event hr hcon.name hcon.after, hheld⟩⟩

/-- Over every run in which the record is still the listed one whenever a pass writes
NOT_READY on a node it is about to evacuate: in every state reached, a node controller
pass that deletes an instance listed it on a node the pass knows to be lost. -/
theorem evacuation_of_lost (cfg : Config) (w : World) (ls : List Step)
    (hc : Along (body cfg) Unmoved (start w) ls) (t : ℕ) (th : Proc) (m : String) (r : Int)
    (hcall : ((start w).run (body cfg) ls).Calls t th (.deleteIfRevision .inst m r))
    (htag : th.tag = .nodeController) : DeletesLost th.hist m r := by
  have hrun := run_invariant (body cfg) EvacRun Unmoved (fun _ l hs hl => evacRun_next l hs hl) (start w) ls
    ⟨fun th hth => (by cases hth), fun th hth => (by cases hth), fun th hth => (by cases hth)⟩ hc
  have hspec := conforms_call hrun.recorded hrun.conforms hcall
  rw [htag] at hspec
  obtain ⟨insts, inst, hl, hmem, hn, hr, hex⟩ := hspec
  exact ⟨insts, inst, hl, hmem, hn, hr, knownLost_of_excused hrun (List.mem_of_getElem? hcall.1) htag hex⟩

end Runs

section Examples

def silentWorld : World := { servingWorld with now := 100 * second }

def heartbeatBetween : List Step :=
  [.spawn .nodeController, .step 0 {}, .step 0 {},
    .spawn (.reportStatus (.node "a") { node := "a", nodeIndex := 1 }), .step 1 {}, .step 1 {}, .step 1 {},
    .step 0 {}, .step 0 {}]

def knownLostCheck (h : Log) (n : String) : Bool :=
  (lastListed .node h).any fun nodes => nodes.any fun node =>
    decide (node.metadata.name = n) && (decide (node.phase = .notReady) || h.any (declaresLost node))

theorem knownLost_check {h : Log} {n : String} (hk : KnownLost h n) : knownLostCheck h n := by
  obtain ⟨nodes, node, hl, hm, hn, hwhy⟩ := hk
  unfold knownLostCheck
  rw [hl, Option.any_some, List.any_eq_true]
  refine ⟨node, hm, ?_⟩
  rw [Bool.and_eq_true, Bool.or_eq_true]
  refine ⟨decide_eq_true hn, ?_⟩
  rcases hwhy with hlost | ⟨e, he, hd, -⟩
  · exact Or.inl (decide_eq_true hlost)
  · exact Or.inr (List.any_eq_true.mpr ⟨e, he, hd⟩)

def deletesLostCheck (h : Log) (m : String) : Bool :=
  (lastListed .inst h).any fun insts => insts.any fun inst =>
    decide (inst.metadata.name = m) && knownLostCheck h inst.spec.node

theorem deletesLost_check {h : Log} {m : String} {r : Int} (hd : DeletesLost h m r) : deletesLostCheck h m := by
  obtain ⟨insts, inst, hl, hm, hn, -, hk⟩ := hd
  unfold deletesLostCheck
  rw [hl, Option.any_some, List.any_eq_true]
  exact ⟨inst, hm, by rw [Bool.and_eq_true]; exact ⟨decide_eq_true hn, knownLost_check hk⟩⟩

def deletingCheck (m : String) (r : Int) (f : Log → Bool) : Option Proc → Bool
  | some ⟨.nodeController, .call (.deleteIfRevision .inst m' r') _, h⟩ => decide (m' = m) && decide (r' = r) && f h
  | _ => false

theorem calls_of_deletingCheck {s : Klited} {t : ℕ} {m : String} {r : Int} {f : Log → Bool}
    (h : deletingCheck m r f s.threads[t]?) :
    ∃ th, s.Calls t th (.deleteIfRevision .inst m r) ∧ th.tag = .nodeController ∧ f th.hist := by
  unfold deletingCheck at h
  split at h
  · rename_i m' r' k hist hth
    simp only [Bool.and_eq_true, decide_eq_true_eq] at h
    obtain ⟨⟨rfl, rfl⟩, hf⟩ := h
    exact ⟨_, ⟨hth, k, rfl⟩, rfl, hf⟩
  · cases h

/-- The heartbeat has made the record READY and fresh, the pass's write met a conflict, and the
pass deletes the node's instance all the same. -/
theorem evacuation_of_returned : (∃ th, (tokenRun silentWorld heartbeatBetween).Calls 0 th
        (.deleteIfRevision .inst "web-1a2b" 2) ∧ th.tag = .nodeController ∧ ¬ DeletesLost th.hist "web-1a2b" 2) ∧
    ((tokenRun silentWorld heartbeatBetween).world.store.lookup .node "a").map
      (fun e => (e.1.phase, e.1.getStatus.lastHeartbeatUnix)) = some (.ready, 100) ∧
    (tokenRun silentWorld (heartbeatBetween ++ [.step 0 {}])).world.store.lookup
      .inst "web-1a2b" = none := by
  refine ⟨?_, by decide +kernel, by decide +kernel⟩
  obtain ⟨th, hcall, htag, hf⟩ := calls_of_deletingCheck (f := fun h => !deletesLostCheck h "web-1a2b")
    (s := tokenRun silentWorld heartbeatBetween) (t := 0) (m := "web-1a2b") (r := 2)
    (by decide +kernel)
  refine ⟨th, hcall, htag, fun hd => ?_⟩
  rw [deletesLost_check hd] at hf
  cases hf

def unmovedCheck (s : Klited) : Step → Bool
  | .step t _ =>
    match s.threads[t]? with
    | some ⟨.nodeController, .call (.put .node _ _) _, h⟩ => (lastListed .node h).all fun nodes =>
      nodes.all fun node => decide (s.world.store.lookup .node node.metadata.name =
        some (node, node.metadata.resourceVersion))
    | _ => true
  | _ => true

theorem unmoved_of_check (s : Klited) (l : Step) (h : unmovedCheck s l) : Unmoved s l := by
  cases l with
  | step t c =>
    intro th o node hcall htag hcon
    obtain ⟨nodes, hl, hm⟩ := hcon.listed
    obtain ⟨tag, prog, hist⟩ := th
    obtain ⟨hth, k, rfl⟩ := hcall
    obtain rfl : tag = .nodeController := htag
    simp only [unmovedCheck, hth] at h
    rw [hl, Option.all_some, List.all_eq_true] at h
    have hnode := h node hm
    rw [decide_eq_true_eq] at hnode
    exact hnode
  | _ => trivial

def lonePass : List Step := [.spawn .nodeController, .step 0 {}, .step 0 {}, .step 0 {}, .step 0 {}]

theorem evacuation_of_lost_alone : ∃ th,
    (tokenRun silentWorld lonePass).Calls 0 th (.deleteIfRevision .inst "web-1a2b" 2) ∧
    DeletesLost th.hist "web-1a2b" 2 := by
  obtain ⟨th, hcall, htag, -⟩ := calls_of_deletingCheck (f := fun _ => true)
    (s := tokenRun silentWorld lonePass) (t := 0) (m := "web-1a2b") (r := 2)
    (by decide +kernel)
  refine ⟨th, hcall, evacuation_of_lost tokenConfig silentWorld lonePass ?_ 0 th _ _ hcall htag⟩
  exact along_of_check (body tokenConfig) unmoved_of_check _ _ (by decide +kernel)

end Examples

end Klite
