import Klite.Server.Agent
import Klite.Store.Listings

/-!
# What Register and ReportStatus may do

The index protocol is write, then list, then yield. A call that has moved a
node's index away from zero holds a claim on it until it lists the nodes and sees
no other holder, or takes the index back. `claim` reads this off its history.
-/

namespace Klite
open Lib

def indexAt (w : World) (n : String) : Int :=
  ((w.store.lookup .node n).map fun e => Node.index e.1).getD 0

def claim (n : String) : Log → Option Int
  | [] => none
  | e :: h =>
    if indexAt e.post n ≠ indexAt e.pre n then
      if indexAt e.post n = 0 then none else some (indexAt e.post n)
    else match claim n h, listedBy .node e with
      | some i, some nodes => if holderIn nodes n i = "" then none else some i
      | x, _ => x

/- A call may answer with the index `i`: its last call was a listing in which nobody
else holds what it claims, or it wrote back an index that was already stored. -/
def Confirmed (n : String) (i : Int) : Log → Prop
  | [] => False
  | e :: h =>
    (∃ nodes, listedBy .node e = some nodes ∧ holderIn nodes n i = "" ∧ claim n h = some i ∧
      e.post = e.pre ∧ nodes = e.pre.store.listing .node) ∨
    (∃ o rev cur, e.op = .put .node o rev ∧ o.metadata.name = n ∧ Node.index o = i ∧ i ≠ 0 ∧
      e.pre.store.lookup .node n = some (cur, rev) ∧ Node.index cur = i ∧ indexAt e.post n = i)

section Claim
variable {n : String} {e : Event Op Res World} {h : Log}

theorem claim_cons (hi : indexAt e.post n = indexAt e.pre n) (hl : listedBy .node e = none) :
    claim n (e :: h) = claim n h := by
  rw [claim, if_neg (by simp [hi]), hl]
  cases claim n h <;> rfl

theorem claim_assign {i : Int} (hpre : indexAt e.pre n = 0) (hpost : indexAt e.post n = i)
    (hi : i ≠ 0) : claim n (e :: h) = some i := by
  rw [claim, hpre, hpost, if_pos hi, if_neg hi]

theorem claim_clear (hpre : indexAt e.pre n ≠ 0) (hpost : indexAt e.post n = 0) : claim n (e :: h) = none := by
  rw [claim, hpost, if_pos (Ne.symm hpre), if_pos rfl]

theorem claim_list {nodes : List Node} (hi : indexAt e.post n = indexAt e.pre n) (hl : listedBy .node e = some nodes) :
    claim n (e :: h) = (claim n h).bind fun i => if holderIn nodes n i = "" then none else some i := by
  rw [claim, if_neg (by simp [hi]), hl]
  cases claim n h <;> rfl

end Claim

theorem index_status (node : Node) (st : NodeStatus) :
    Node.index { node with status := some st } = st.nodeIndex := rfl

theorem stamp_node_index (o : Node) (r : Int) : Node.index (stamp (k := .node) o r) = o.index := rfl

theorem indexAt_of_lookup {w : World} {n : String} {o : Node} {r : Int}
    (hl : w.store.lookup .node n = some (o, r)) : indexAt w n = o.index := by
  unfold indexAt
  rw [hl]
  rfl

theorem put_ok_index {o o' : Node} {h : Log} {c : Choice} {w : World} {rev : Int} {n : String}
    (hseen : Seen h .node o) (ha : After h w) (hn : o.metadata.name = n) (hn' : o'.metadata.name = o.metadata.name)
    (hr : (exec c (.put .node o' o.metadata.resourceVersion) w).1 = .ok rev) :
    w.store.lookup .node n = some (o, o.metadata.resourceVersion) ∧
    indexAt (exec c (.put .node o' o.metadata.resourceVersion) w).2 n = o'.index := by
  obtain ⟨hpre, hpost⟩ := put_ok (k := .node) hseen ha hn' hr
  subst hn
  exact ⟨hpre, (indexAt_of_lookup hpost).trans (stamp_node_index _ _)⟩

section Yield
variable {R : Rights} {name : String} {idx : Int} {h : Log}

theorem obeys_indexHolder : Obeys R (fun h' r => ∀ holder, r = .ok holder →
      (holder = "" → claim name h = some idx → Confirmed name idx h') ∧
      (holder ≠ "" → claim name h = some idx → claim name h' = some idx)) (indexHolder name idx) h := by
  refine obeys_list ?_ ?_
  · nofun
  · intro c w _ hr holder hh
    cases hh
    have hl := listedBy_self hr
    refine ⟨?_, ?_⟩
    · intro hnone hc
      exact Or.inl ⟨_, hl, hnone, hc, rfl, rfl⟩
    · intro hsome hc
      rw [claim_list rfl hl, hc]
      simp only [Option.bind_some, if_neg hsome]

theorem obeys_yieldIndexCollision (hc : claim name h = some idx)
    (hr : ∀ h' w cur, claim name h' = some idx → Node.index cur = idx → cur.metadata.name = name →
      R.edit .node h' w cur (cleared cur)) :
    Obeys R (fun h' r => r = .ok false → Confirmed name idx h') (yieldIndexCollision name idx) h := by
  refine follows_bind obeys_indexHolder ?_
  intro h' r _ hq
  cases r with
  | error e => exact fun he => by cases he
  | ok holder =>
    obtain ⟨hnone, hsome⟩ := hq holder rfl
    change Obeys R _ (backOff name idx holder) h'
    unfold backOff
    split
    · rename_i hh
      exact fun _ => hnone hh hc
    · rename_i hh
      refine obeys_casLoop (fun h'' => claim name h'' = some idx) casRetries (hsome hh hc) ?_ ?_ ?_ ?_ ?_
      · intro h'' c w hi
        rw [claim_cons rfl (listedBy_of_not_list fun k' hk => by cases hk)]
        exact hi
      · intro h'' c w o rev hi hsame
        rw [claim_cons ?_ (listedBy_of_not_list fun k' hk => by cases hk)]
        · exact hi
        · change indexAt (exec c (.put .node o rev) w).2 name = indexAt w name
          rw [hsame]
      · exact fun _ _ he => by cases he
      · exact fun _ _ he => by cases he
      · intro h'' node hi hseen hn
        unfold judgeYield
        split
        · exact ⟨hi, fun he => by cases he⟩
        · split
          · trivial
          · rename_i hidx _
            refine ⟨hi, hn, ?_, fun _ _ he => by cases he⟩
            intro w _
            exact hr h'' w node hi (not_not.mp hidx) hn

end Yield

-- The two ways Register writes its node: the registration itself, and the yield.
def RegisterEdit (name : String) (h : Log) (cur new : Node) : Prop :=
  cur.metadata.name = name ∧
  ((∃ idx unix addr, new = registered cur idx unix (advertiseIP addr) ∧ idx ≠ 0 ∧ (cur.index ≠ 0 → idx = cur.index)) ∨
    (new = cleared cur ∧ claim name h = some cur.index))

def registerRights (name : String) : Rights where
  create _ _ _ _ := False
  edit
    | .node, h, _, cur, new => RegisterEdit name h cur new
    | _, _, _, _, _ => False
  remove _ _ _ _ := False

theorem freeFrom_ge (used : List Int) (n : ℕ) (i : Int) : i ≤ freeFrom used n i := by
  induction n generalizing i with
  | zero => exact le_refl i
  | succ n ih =>
    rw [freeFrom]
    split
    · have := ih (i + 1)
      omega
    · exact le_refl i

section Register
variable {R : Rights} {name : String} {h : Log}

theorem obeys_assignIndex (node : Node) :
    Obeys R (fun _ r => ∀ idx, r = .ok idx → idx ≠ 0 ∧ (node.index ≠ 0 → idx = node.index)) (assignIndex node) h := by
  unfold assignIndex
  split
  · rename_i h0
    refine obeys_list nofun ?_
    intro c w _ _ idx hi
    cases hi
    have := freeFrom_ge ((w.store.listing .node).map Node.index)
      ((w.store.listing .node).map Node.index).length 1
    exact ⟨by omega, fun hne => absurd h0 hne⟩
  · rename_i hne
    intro idx hi
    cases hi
    exact ⟨hne, fun _ => rfl⟩

theorem registered_name (node : Node) (idx unix : Int) (addr : String) :
    (registered node idx unix addr).metadata.name = node.metadata.name := rfl

theorem registered_index (node : Node) (idx unix : Int) (addr : String) :
    (registered node idx unix addr).index = idx := rfl

theorem obeys_checkCollision {node : Node} {idx : Int} (hnew : node.index = 0 → claim name h = some idx)
    (hold : node.index ≠ 0 → Confirmed name idx h) :
    Obeys (registerRights name) (fun h' r => r = .ok false → Confirmed name idx h')
      (checkCollision (node.index = 0) name idx) h := by
  by_cases hfresh : node.index = 0
  · simp only [checkCollision, hfresh, decide_true, if_true]
    refine obeys_yieldIndexCollision (hnew hfresh) ?_
    intro h' w' cur hc hci hcn
    exact ⟨hcn, Or.inr ⟨rfl, hci ▸ hc⟩⟩
  · simp only [checkCollision, hfresh, decide_false]
    exact fun _ => hold hfresh

theorem obeys_registerLoop (addr : String) (n : ℕ) : Obeys (registerRights name)
      (fun h' r => ∀ idx, r = .ok idx → Confirmed name idx h') (registerLoop name (advertiseIP addr) n) h := by
  induction n generalizing h with
  | zero => exact nofun
  | succ n ih =>
    refine obeys_get ?_ ?_
    · intro c w e _ _
      dsimp only
      split <;> exact nofun
    · intro c w node _ _ hnode hn
      have hseen : Seen (klited.event c (.get .node name) w :: h) .node node :=
        ⟨_, List.mem_cons_self, hnode⟩
      refine follows_bind (obeys_assignIndex node) ?_
      intro h₁ r hs₁ hr
      cases r with
      | error e => exact nofun
      | ok idx =>
        obtain ⟨hidx, hkeep⟩ := hr idx rfl
        refine obeys_quiet rfl ?_
        intro c₁ w₁ t _ _
        have hseen₁ : Seen (klited.event c₁ Op.now w₁ :: h₁) .node node :=
          seen_mono (hs₁.trans (List.suffix_cons _ _)) hseen
        refine obeys_put (fun w₂ ha => within_put (k := .node) hseen₁ ha rfl
          ⟨hn, Or.inl ⟨idx, _, addr, rfl, hidx, hkeep⟩⟩) ?_
        intro c₂ w₂ r ha hr
        cases r with
        | error e =>
          dsimp only
          split
          · exact ih
          · exact nofun
        | ok rev =>
          obtain ⟨hpre, hpost⟩ := put_ok_index hseen₁ ha hn (registered_name node idx _ (advertiseIP addr)) hr
          rw [registered_index] at hpost
          refine follows_bind (obeys_checkCollision ?_ ?_) ?_
          · exact fun hfresh => claim_assign ((indexAt_of_lookup hpre).trans hfresh) hpost hidx
          · exact fun hstored => Or.inr
              ⟨_, _, node, rfl, hn, rfl, hidx, hpre, (hkeep hstored).symm, hpost⟩
          · intro h' r _ hq
            match r, hq with
            | .error e, _ => exact nofun
            | .ok true, _ => exact ih
            | .ok false, hq =>
              intro i hi
              cases hi
              exact hq rfl

end Register

theorem obeys_register (cfg : AgentConfig) (p : Principal) (req : RegisterRequest) (h : Log) :
    Obeys (registerRights req.node)
      (fun h' r => ∀ resp, r = .ok resp → Confirmed req.node resp.net.nodeIndex h') (register cfg p req) h := by
  unfold register
  split
  · exact nofun
  · refine follows_bind (obeys_registerLoop _ casRetries) ?_
    intro h' r _ hq
    cases r with
    | error e => exact nofun
    | ok idx =>
      intro resp hr
      cases hr
      exact hq idx rfl

def ReportNodeEdit (name : String) (h : Log) (cur new : Node) : Prop :=
  cur.metadata.name = name ∧
  ((∃ unix advertise, new = stamped cur unix (advertiseIP advertise)) ∨
    (∃ i, i ≠ 0 ∧ cur.index = 0 ∧ new = healed cur i) ∨
    (new = cleared cur ∧ claim name h = some cur.index))

def ReportInstanceEdit (req : ReportStatusRequest) (cur new : Instance) : Prop :=
  req.node ≠ "" ∧ ∃ u ∈ req.instances, ∃ st, u.status = some st ∧ cur.metadata.name = u.name ∧
    cur.metadata.uid = u.uid ∧ cur.spec.node = req.node ∧
    new = { cur with status := some (effectiveStatus cur.phase st) }

def reportRights (req : ReportStatusRequest) : Rights where
  create _ _ _ _ := False
  edit
    | .node, h, _, cur, new => ReportNodeEdit req.node h cur new
    | .inst, _, _, cur, new => ReportInstanceEdit req cur new
    | _, _, _, _, _ => False
  remove _ _ _ _ := False

section Report
variable {req : ReportStatusRequest} {h : Log}

theorem obeys_applyInstanceStatus (h0 : req.node ≠ "") (u : InstanceStatusUpdate) (hu : u ∈ req.instances) :
    Abides (reportRights req) (applyInstanceStatus req.node u) h := by
  refine obeys_cas casRetries ?_
  intro h' inst _ hn
  unfold judgeReport
  split
  · trivial
  · rename_i hnode
    split
    · trivial
    · rename_i huid
      split
      · trivial
      · rename_i st hst
        dsimp only
        split
        · trivial
        · refine ⟨hn, fun w _ => ?_⟩
          exact ⟨h0, u, hu, st, hst, hn, not_not.mp huid, not_not.mp hnode, rfl⟩

theorem obeys_reportInstances (h0 : req.node ≠ "") : Abides (reportRights req)
      (reportInstances req.node req.instances) h := by
  refine follows_post (fun _ _ _ => trivial)
    (follows_foldlM _ (fun us _ _ => ∀ u ∈ us, u ∈ req.instances) ?_ _ _ h fun u hu => hu)
  intro u us h' _ hi
  refine follows_bind (obeys_applyInstanceStatus h0 u (hi u List.mem_cons_self)) ?_
  intro _ _ _ _ u' hu'
  exact hi u' (List.mem_cons_of_mem _ hu')

theorem obeys_stampNode (advertise : String) :
    Abides (reportRights req) (stampNode req.node (advertiseIP advertise)) h := by
  refine obeys_cas casRetries ?_
  intro h' node _ hn
  refine obeys_quiet rfl ?_
  intro c w t _ _
  dsimp only
  split
  · trivial
  · exact ⟨hn, fun _ _ => ⟨hn, Or.inl ⟨_, advertise, rfl⟩⟩⟩

theorem obeys_healLoop (reported : Int) (hrep : reported ≠ 0) (n : ℕ) :
    Abides (reportRights req) (healLoop req.node reported n) h := by
  induction n generalizing h with
  | zero => trivial
  | succ n ih =>
    refine obeys_get (fun _ _ _ _ _ => trivial) ?_
    intro c w node _ _ hnode hn
    have hseen : Seen (klited.event c (.get .node req.node) w :: h) .node node :=
      ⟨_, List.mem_cons_self, hnode⟩
    dsimp only
    split
    · trivial
    · rename_i hidx
      refine follows_bind obeys_indexHolder ?_
      intro h₁ r hs₁ _
      cases r with
      | error e => trivial
      | ok holder =>
        dsimp only
        split
        · trivial
        · have hseen₁ := seen_mono hs₁ hseen
          refine obeys_put (fun w₂ ha => within_put (k := .node) hseen₁ ha rfl
            ⟨hn, Or.inr (Or.inl ⟨reported, hrep, not_not.mp hidx, rfl⟩)⟩) ?_
          intro c₂ w₂ r ha hr
          cases r with
          | error e =>
            dsimp only
            split
            · exact ih
            · trivial
          | ok rev =>
            obtain ⟨hpre, hpost⟩ := put_ok_index hseen₁ ha hn
              (show (healed node reported).metadata.name = node.metadata.name from rfl) hr
            refine follows_bind (obeys_yieldIndexCollision
              (claim_assign ((indexAt_of_lookup hpre).trans (not_not.mp hidx)) hpost hrep) ?_) fun _ _ _ _ => trivial
            intro h' w' cur hc hci hcn
            exact ⟨hcn, Or.inr (Or.inr ⟨rfl, hci ▸ hc⟩)⟩

theorem obeys_reportStatus (p : Principal) : Abides (reportRights req) (reportStatus p req) h := by
  unfold reportStatus
  split
  · trivial
  · rename_i h0
    split
    · trivial
    · refine follows_bind (obeys_reportInstances h0) ?_
      intro h₁ _ _ _
      refine follows_bind (obeys_stampNode _) ?_
      intro h₂ r _ _
      cases r with
      | error e => trivial
      | ok stored =>
        refine follows_bind (P := fun _ _ => True) ?_ fun _ _ _ _ => trivial
        unfold healNodeIndex
        split
        · trivial
        · rename_i hrep
          split
          · trivial
          · exact obeys_healLoop req.nodeIndex (fun h0 => hrep (Or.inl h0)) casRetries

end Report

end Klite
