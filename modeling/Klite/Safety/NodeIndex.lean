import Klite.System

/-!
# Node indexes

Two registrations that race for one index are told apart by the listing each makes after
its write: of two writers the later one sees the earlier one.
-/

namespace Klite
open Lib

def Returned (th : Proc) (n : String) (i : Int) : Prop :=
  ∃ p req resp, th.tag = .register p req ∧ req.node = n ∧
    th.prog = .ret (.registered (.ok resp)) ∧ resp.net.nodeIndex = i

def Unclaimed (s : Klited) (n : String) : Prop :=
  ∀ (u : ℕ) (th : Proc), s.threads[u]? = some th → claim n th.hist = none

/- The index protocol, for the nodes in `K`: what a call claims is stored and claimed by
nobody else; two stored indexes nobody claims differ; what Register answered is stored
and claimed by nobody. -/
structure IndexInv (K : String → Prop) (s : Klited) : Prop where
  claimed : ∀ (u : ℕ) (th : Proc) n i, s.threads[u]? = some th → K n → claim n th.hist = some i →
    indexAt s.world n = i ∧ i ≠ 0
  sole : ∀ (u u' : ℕ) (th th' : Proc) n, s.threads[u]? = some th → s.threads[u']? = some th' → K n →
    claim n th.hist ≠ none → claim n th'.hist ≠ none → u = u'
  distinct : ∀ a b, K a → K b → a ≠ b → Unclaimed s a → Unclaimed s b → indexAt s.world a ≠ 0 →
    indexAt s.world a ≠ indexAt s.world b
  returned : ∀ (u : ℕ) (th : Proc) n i, s.threads[u]? = some th → K n → Returned th n i →
    indexAt s.world n = i ∧ i ≠ 0 ∧ Unclaimed s n

/- One node's index over one call: it stays, it was 0, or the caller gives up its claim. -/
def IndexMove (h : Log) (w w' : World) (n : String) : Prop :=
  indexAt w' n = indexAt w n ∨ indexAt w n = 0 ∨ (indexAt w' n = 0 ∧ claim n h = some (indexAt w n))

variable {h : Log} {w : World}

theorem node_edit_index {cfg : Config} {call : Call} (hm : call.modelled) {cur new : Node}
    (hr : (rights cfg call).edit .node h w cur new) : new.index = cur.index ∨ cur.index = 0 ∨
      (new.index = 0 ∧ claim cur.metadata.name h = some cur.index) := by
  cases call with
  | register p req =>
    obtain ⟨hn, ⟨idx, unix, addr, rfl, -, hk⟩ | ⟨rfl, hc⟩⟩ := hr
    · by_cases h0 : cur.index = 0
      · exact Or.inr (Or.inl h0)
      · exact Or.inl (hk h0)
    · exact Or.inr (Or.inr ⟨rfl, hn ▸ hc⟩)
  | reportStatus p req =>
    obtain ⟨hn, ⟨unix, adv, rfl⟩ | ⟨i, -, h0, rfl⟩ | ⟨rfl, hc⟩⟩ := hr
    · exact Or.inl rfl
    · exact Or.inr (Or.inl h0)
    · exact Or.inr (Or.inr ⟨rfl, hn ▸ hc⟩)
  | apply decoded =>
    obtain ⟨o, -, rfl⟩ := hr
    exact Or.inl rfl
  | delete req =>
    obtain ⟨-, -, rfl⟩ := hr
    exact Or.inl rfl
  | uncordon node =>
    obtain ⟨-, -, rfl⟩ := hr
    exact Or.inl rfl
  | drain node force order polls =>
    obtain ⟨-, rfl⟩ := hr
    exact Or.inl rfl
  | nodeController =>
    obtain ⟨insts, -, silence, rfl⟩ := hr
    exact Or.inl ((index_status cur _).trans (observedStatus_nodeIndex _ _ _ _))
  | scale workload replicas => exact hr.elim
  | workload order passes => exact hr.elim
  | scheduler => exact hr.elim
  | other p => cases hm

variable {n : String}

theorem indexMove_of_change {cfg : Config} {call : Call} (hm : call.modelled) {w w' : World} {op : Op}
    (hc : Change (rights cfg call) h w op w'.store)
    (hkeep : w.store.lookup .node n ≠ none → w'.store.lookup .node n ≠ none) : IndexMove h w w' n := by
  rcases change_record hc .node n with
    hsame | ⟨o, -, hnone, -⟩ | ⟨cur, r, o, -, hl, hr, -, hpost⟩ | ⟨cur, r, -, hl, -, hpost⟩
  · refine Or.inl ?_
    unfold indexAt
    rw [hsame]
  · refine Or.inr (Or.inl ?_)
    unfold indexAt
    rw [hnone]
    rfl
  · have hpre := indexAt_of_lookup hl
    have hpost' : indexAt w' n = Node.index o := (indexAt_of_lookup hpost).trans (stamp_node_index _ _)
    have hn : cur.metadata.name = n := (lookup_some hl).1
    rcases node_edit_index hm hr with he | he | ⟨he, hcl⟩
    · exact Or.inl (by rw [hpost', hpre, he])
    · exact Or.inr (Or.inl (by rw [hpre, he]))
    · exact Or.inr (Or.inr ⟨hpost'.trans he, by rw [hpre, ← hn]; exact hcl⟩)
  · exact absurd hpost (hkeep (by rw [hl]; simp))

variable {i : Int}

theorem holderIn_none {nodes : List Node} (hv : ∀ m ∈ nodes, m.metadata.name ≠ "") (h : holderIn nodes n i = "") :
    ∀ m ∈ nodes, m.metadata.name ≠ n → m.index ≠ i := by
  intro m hm hn hi
  unfold holderIn at h
  cases hf : nodes.find? fun n' => n'.metadata.name ≠ n ∧ n'.index = i with
  | none =>
    have := List.find?_eq_none.mp hf m hm
    simp [hn, hi] at this
  | some m' =>
    rw [hf] at h
    exact hv m' (List.mem_of_find?_eq_some hf) h

theorem listing_no_holder {n m : String} (h : holderIn (w.store.listing .node) n i = "") (hne : m ≠ n) (hi : i ≠ 0) :
    indexAt w m ≠ i := by
  intro he
  unfold indexAt at he
  cases hl : w.store.lookup .node m with
  | none =>
    rw [hl] at he
    exact hi he.symm
  | some e =>
    obtain ⟨o, r⟩ := e
    rw [hl] at he
    have hs := lookup_some hl
    have hmem : o ∈ w.store.listing .node := mem_listing.mpr (holds_of_lookup hl)
    refine holderIn_none ?_ h o hmem (fun hn => hne (hs.1.symm.trans hn)) he
    intro m' hm' h0
    have hv := (lookup_some (mem_listing.mp hm')).2.2.1
    rw [show (metaOf (k := .node) m').name = "" from h0] at hv
    exact absurd hv (by decide)

theorem claim_after {c : Choice} {op : Op} (hm : IndexMove h w (exec c op w).2 n) :
    (indexAt (exec c op w).2 n = indexAt w n ∧ claim n (klited.event c op w :: h) = claim n h) ∨
    (indexAt (exec c op w).2 n = indexAt w n ∧ claim n (klited.event c op w :: h) = none ∧
      ∃ i, claim n h = some i ∧ holderIn (w.store.listing .node) n i = "") ∨
    (indexAt w n = 0 ∧ indexAt (exec c op w).2 n ≠ 0 ∧
      claim n (klited.event c op w :: h) = some (indexAt (exec c op w).2 n)) ∨
    (indexAt (exec c op w).2 n = 0 ∧ claim n (klited.event c op w :: h) = none ∧
      claim n h = some (indexAt w n) ∧ indexAt w n ≠ 0) := by
  by_cases hsame : indexAt (exec c op w).2 n = indexAt w n
  · cases hl : listedBy .node (klited.event c op w) with
    | none => exact Or.inl ⟨hsame, claim_cons hsame hl⟩
    | some nodes =>
      have hlist := claim_list (h := h) hsame hl
      rw [listedBy_listing hl] at hlist
      cases hc : claim n h with
      | none => exact Or.inl ⟨hsame, by rw [hlist, hc]; rfl⟩
      | some i =>
        rw [hc, Option.bind_some] at hlist
        split at hlist
        · rename_i hh
          exact Or.inr (Or.inl ⟨hsame, hlist, i, rfl, hh⟩)
        · exact Or.inl ⟨hsame, hlist⟩
  · rcases hm with hm | h0 | ⟨h0, hcl⟩
    · exact absurd hm hsame
    · have hne : indexAt (exec c op w).2 n ≠ 0 := fun he => hsame (he.trans h0.symm)
      exact Or.inr (Or.inr (Or.inl ⟨h0, hne, claim_assign h0 rfl hne⟩))
    · have hne : indexAt w n ≠ 0 := fun he => hsame (h0.trans he.symm)
      exact Or.inr (Or.inr (Or.inr ⟨h0, claim_clear hne h0, hcl, hne⟩))

section Preserved
variable {K : String → Prop} {s s' : Klited}

theorem indexInv_quiet (hinv : IndexInv K s) (hidx : ∀ n, indexAt s'.world n = indexAt s.world n)
    (hth : ∀ (u : ℕ) (th' : Proc), s'.threads[u]? = some th' →
      (∃ th, s.threads[u]? = some th ∧ th'.hist = th.hist ∧ ∀ n i, Returned th' n i → Returned th n i) ∨
      (th'.hist = [] ∧ ∀ n i, ¬ Returned th' n i)) (hback : ∀ (u : ℕ) (th : Proc), s.threads[u]? = some th →
      ∃ th', s'.threads[u]? = some th' ∧ th'.hist = th.hist) : IndexInv K s' := by
  have hun : ∀ n, Unclaimed s' n ↔ Unclaimed s n := by
    intro n
    constructor
    · intro h u th hu
      obtain ⟨th', hu', hh⟩ := hback u th hu
      rw [← hh]
      exact h u th' hu'
    · intro h u th' hu'
      rcases hth u th' hu' with ⟨th, hu, hh, -⟩ | ⟨hh, -⟩
      · rw [hh]
        exact h u th hu
      · rw [hh]
        rfl
  refine ⟨?_, ?_, ?_, ?_⟩
  · intro u th' n i hu' hn hc
    rw [hidx]
    rcases hth u th' hu' with ⟨th, hu, hh, -⟩ | ⟨hh, -⟩
    · exact hinv.claimed u th n i hu hn (hh ▸ hc)
    · rw [hh] at hc
      cases hc
  · intro u u' th₁ th₂ n h₁ h₂ hn hc₁ hc₂
    rcases hth u th₁ h₁ with ⟨t₁, hu₁, hh₁, -⟩ | ⟨hh₁, -⟩
    · rcases hth u' th₂ h₂ with ⟨t₂, hu₂, hh₂, -⟩ | ⟨hh₂, -⟩
      · exact hinv.sole u u' t₁ t₂ n hu₁ hu₂ hn (hh₁ ▸ hc₁) (hh₂ ▸ hc₂)
      · exact absurd (by rw [hh₂]; rfl) hc₂
    · exact absurd (by rw [hh₁]; rfl) hc₁
  · intro a b ha hb hab hua hub h0
    rw [hidx] at h0 ⊢
    rw [hidx]
    exact hinv.distinct a b ha hb hab ((hun a).mp hua) ((hun b).mp hub) h0
  · intro u th' n i hu' hn hr
    rcases hth u th' hu' with ⟨th, hu, hh, hback'⟩ | ⟨-, hno⟩
    · obtain ⟨hi, h0, hu0⟩ := hinv.returned u th n i hu hn (hback' n i hr)
      exact ⟨(hidx n).trans hi, h0, (hun n).mpr hu0⟩
    · exact absurd hr (hno n i)

end Preserved

variable {u : ℕ}

section Call
variable {K : String → Prop} {s : Klited} {t : ℕ} {th : Proc} {c : Choice} {op : Op}
variable {k : Res op → Code Reply}

def afterCall (s : Klited) (t : ℕ) (th : Proc) (c : Choice) (op : Op) (k : Res op → Code Reply) : Klited :=
  ⟨(exec c op s.world).2, s.threads.set t
    ⟨th.tag, k (exec c op s.world).1, klited.event c op s.world :: th.hist⟩⟩

variable {th' : Proc}

theorem afterCall_thread (hth : s.threads[t]? = some th) (h : (afterCall s t th c op k).threads[u]? = some th') :
    (u = t ∧ th' = ⟨th.tag, k (exec c op s.world).1, klited.event c op s.world :: th.hist⟩) ∨
    (u ≠ t ∧ s.threads[u]? = some th') := by
  have hlt := (List.getElem?_eq_some_iff.mp hth).1
  simp only [afterCall] at h
  by_cases hu : t = u
  · subst hu
    rw [List.getElem?_set_self hlt] at h
    exact Or.inl ⟨rfl, (Option.some.inj h).symm⟩
  · rw [List.getElem?_set_ne hu] at h
    exact Or.inr ⟨fun he => hu he.symm, h⟩

theorem afterCall_self (hth : s.threads[t]? = some th) : (afterCall s t th c op k).threads[t]? =
      some ⟨th.tag, k (exec c op s.world).1, klited.event c op s.world :: th.hist⟩ :=
  List.getElem?_set_self (List.getElem?_eq_some_iff.mp hth).1

theorem afterCall_other (hu : u ≠ t) : (afterCall s t th c op k).threads[u]? = s.threads[u]? :=
  List.getElem?_set_ne fun he => hu he.symm

theorem unclaimed_afterCall (hth : s.threads[t]? = some th) (n : String) : Unclaimed (afterCall s t th c op k) n ↔
      claim n (klited.event c op s.world :: th.hist) = none ∧
      ∀ (u : ℕ) (th' : Proc), u ≠ t → s.threads[u]? = some th' → claim n th'.hist = none := by
  constructor
  · intro h
    refine ⟨h t _ (afterCall_self hth), fun u th' hu hth' => h u th' ?_⟩
    rw [afterCall_other hu]
    exact hth'
  · rintro ⟨hself, hother⟩ u th' hu
    rcases afterCall_thread hth hu with ⟨rfl, rfl⟩ | ⟨hne, hu⟩
    · exact hself
    · exact hother u th' hne hu

section AfterCall
variable (hinv : IndexInv K s) (hth : s.threads[t]? = some th)
  (hmove : ∀ n, K n → IndexMove th.hist s.world (exec c op s.world).2 n)
include hinv hth hmove

theorem claimed_afterCall (hu : (afterCall s t th c op k).threads[u]? = some th') (hn : K n)
    (hc : claim n th'.hist = some i) : indexAt (exec c op s.world).2 n = i ∧ i ≠ 0 := by
  have hafter := claim_after (hmove n hn)
  rcases afterCall_thread hth hu with ⟨rfl, rfl⟩ | ⟨hne, hu'⟩
  · rcases hafter with ⟨hs, hcl⟩ | ⟨-, hcl, -⟩ | ⟨-, h0, hcl⟩ | ⟨-, hcl, -⟩
    · rw [hs]
      exact hinv.claimed u th n i hth hn (hcl ▸ hc)
    · rw [hcl] at hc
      cases hc
    · rw [hcl] at hc
      exact ⟨Option.some.inj hc, Option.some.inj hc ▸ h0⟩
    · rw [hcl] at hc
      cases hc
  · obtain ⟨hi, h0⟩ := hinv.claimed u th' n i hu' hn hc
    rcases hafter with ⟨hs, -⟩ | ⟨hs, -⟩ | ⟨hz, -⟩ | ⟨-, -, hcl, -⟩
    · exact ⟨hs.trans hi, h0⟩
    · exact ⟨hs.trans hi, h0⟩
    · exact absurd (hi.symm.trans hz) h0
    · exact absurd (hinv.sole u t th' th n hu' hth hn (by rw [hc]; simp) (by rw [hcl]; simp)) hne

theorem sole_afterCall (hne : u ≠ t) (hu : s.threads[u]? = some th') (hn : K n)
    (hc : claim n (klited.event c op s.world :: th.hist) ≠ none) : claim n th'.hist = none := by
  cases hc' : claim n th'.hist with
  | none => rfl
  | some i =>
    have hsome : claim n th'.hist ≠ none := by rw [hc']; simp
    obtain ⟨hi, h0⟩ := hinv.claimed u th' n i hu hn hc'
    rcases claim_after (hmove n hn) with ⟨-, hcl⟩ | ⟨-, hcl, -⟩ | ⟨hz, -⟩ | ⟨-, hcl, -⟩
    · exact absurd (hinv.sole u t th' th n hu hth hn hsome (hcl ▸ hc)) hne
    · exact absurd hcl hc
    · exact absurd (hi.symm.trans hz) h0
    · exact absurd hcl hc

theorem soles_afterCall {u u' : ℕ} {th₁ th₂ : Proc} (h₁ : (afterCall s t th c op k).threads[u]? = some th₁)
    (h₂ : (afterCall s t th c op k).threads[u']? = some th₂) (hn : K n) (hc₁ : claim n th₁.hist ≠ none)
    (hc₂ : claim n th₂.hist ≠ none) : u = u' := by
  rcases afterCall_thread hth h₁ with ⟨rfl, rfl⟩ | ⟨hne₁, hu₁⟩
  · rcases afterCall_thread hth h₂ with ⟨rfl, -⟩ | ⟨hne₂, hu₂⟩
    · rfl
    · exact absurd (sole_afterCall hinv hth hmove hne₂ hu₂ hn hc₁) hc₂
  · rcases afterCall_thread hth h₂ with ⟨rfl, rfl⟩ | ⟨hne₂, hu₂⟩
    · exact absurd (sole_afterCall hinv hth hmove hne₁ hu₁ hn hc₂) hc₁
    · exact hinv.sole u u' th₁ th₂ n hu₁ hu₂ hn hc₁ hc₂

/- A node nobody claims after the call, with an index: the index was there before, and
nobody claimed it or the caller has just seen that nobody else holds it. -/
theorem settled_afterCall (hn : K n) (hun : Unclaimed (afterCall s t th c op k) n)
    (h0 : indexAt (exec c op s.world).2 n ≠ 0) : indexAt (exec c op s.world).2 n = indexAt s.world n ∧
    (Unclaimed s n ∨ ∀ m, m ≠ n → indexAt s.world m ≠ indexAt s.world n) := by
  obtain ⟨hself, hother⟩ := (unclaimed_afterCall hth n).mp hun
  rcases claim_after (hmove n hn) with ⟨hs, hcl⟩ | ⟨hs, -, i, hc, hh⟩ | ⟨-, -, hcl⟩ | ⟨hz, -⟩
  · refine ⟨hs, Or.inl ?_⟩
    intro u th' hu
    by_cases hne : u = t
    · subst hne
      obtain rfl : th = th' := Option.mem_unique hth hu
      rw [← hcl]
      exact hself
    · exact hother u th' hne hu
  · refine ⟨hs, Or.inr fun m hm => ?_⟩
    obtain ⟨hi, hi0⟩ := hinv.claimed t th n i hth hn hc
    rw [hi]
    exact listing_no_holder hh hm hi0
  · rw [hcl] at hself
    cases hself
  · exact absurd hz h0

theorem distinct_afterCall {a b : String} (ha : K a) (hb : K b) (hab : a ≠ b)
    (hua : Unclaimed (afterCall s t th c op k) a) (hub : Unclaimed (afterCall s t th c op k) b)
    (h0 : indexAt (exec c op s.world).2 a ≠ 0) : indexAt (exec c op s.world).2 a ≠ indexAt (exec c op s.world).2 b := by
  intro he
  obtain ⟨hsa, hca⟩ := settled_afterCall hinv hth hmove ha hua h0
  obtain ⟨hsb, hcb⟩ := settled_afterCall hinv hth hmove hb hub (he ▸ h0)
  rw [hsa] at h0
  rw [hsa, hsb] at he
  rcases hca with hca | hca
  · rcases hcb with hcb | hcb
    · exact hinv.distinct a b ha hb hab hca hcb h0 he
    · exact hcb a hab he
  · exact hca b (Ne.symm hab) he.symm

end AfterCall

theorem returned_afterCall (hth : s.threads[t]? = some th)
    (hmove : ∀ n, K n → IndexMove th.hist s.world (exec c op s.world).2 n) (hn : K n) (hi : indexAt s.world n = i)
    (h0 : i ≠ 0) (hun : Unclaimed s n) :
    indexAt (exec c op s.world).2 n = i ∧ i ≠ 0 ∧ Unclaimed (afterCall s t th c op k) n := by
  have hnone := hun t th hth
  have hother : ∀ (u : ℕ) (th' : Proc), u ≠ t → s.threads[u]? = some th' → claim n th'.hist = none :=
    fun u th' _ hu => hun u th' hu
  rcases claim_after (hmove n hn) with ⟨hs, hcl⟩ | ⟨-, -, j, hc, -⟩ | ⟨hz, -⟩ | ⟨-, -, hc, -⟩
  · exact ⟨hs.trans hi, h0, (unclaimed_afterCall hth n).mpr ⟨hcl.trans hnone, hother⟩⟩
  · rw [hnone] at hc
    cases hc
  · exact absurd (hi.symm.trans hz) h0
  · rw [hnone] at hc
    cases hc

/- The call after which Register answers: its listing releases the claim, or it wrote
back an index nobody claimed. -/
theorem confirmed_afterCall (hinv : IndexInv K s) (hth : s.threads[t]? = some th)
    (hmove : ∀ n, K n → IndexMove th.hist s.world (exec c op s.world).2 n) (hn : K n)
    (hconf : Confirmed n i (klited.event c op s.world :: th.hist))
    (hsettled : ∀ o rev cur, op = .put .node o rev → o.metadata.name = n →
      s.world.store.lookup .node n = some (cur, rev) → Node.index o = Node.index cur → Node.index cur ≠ 0 → Unclaimed s n) :
    indexAt (exec c op s.world).2 n = i ∧ i ≠ 0 ∧ Unclaimed (afterCall s t th c op k) n := by
  rcases hconf with ⟨nodes, hl, hh, hc, hpost, -⟩ | ⟨o, rev, cur, hop, hon, hoi, h0, hcur, hci, -⟩
  · obtain ⟨hi, h0⟩ := hinv.claimed t th n i hth hn hc
    have hsame : indexAt (exec c op s.world).2 n = indexAt s.world n := congrArg (indexAt · n) hpost
    refine ⟨hsame.trans hi, h0, (unclaimed_afterCall hth n).mpr ⟨?_, ?_⟩⟩
    · rw [claim_list hsame hl, hc]
      simp only [Option.bind_some, hh, if_true]
    · intro u th' hne hu
      by_contra hne'
      exact hne (hinv.sole u t th' th n hu hth hn hne' (by rw [hc]; simp))
  · have hi : indexAt s.world n = i := (indexAt_of_lookup hcur).trans hci
    exact returned_afterCall hth hmove hn hi h0
      (hsettled o rev cur hop hon hcur (hoi.trans hci.symm) (by rw [hci]; exact h0))

end Call

def KeepsRecords (cfg : Config) (K : String → Prop) (s : Klited) (l : Step) : Prop :=
  ∀ n, K n → s.world.store.lookup .node n ≠ none →
    (s.next (body cfg) l).world.store.lookup .node n ≠ none

/- Register does not write back a stored index that some call has assigned but neither
confirmed nor taken back. -/
def WritesBackSettled (K : String → Prop) (s : Klited) : Step → Prop
  | .step t _ => ∀ (th : Proc) (p : Principal) (req : RegisterRequest) (o : Node) (rev : Int) (cur : Node),
      s.Calls t th (.put .node o rev) → th.tag = .register p req → K o.metadata.name →
      s.world.store.lookup .node o.metadata.name = some (cur, rev) → o.index = cur.index →
      cur.index ≠ 0 → Unclaimed s o.metadata.name
  | _ => True

def IndexCond (cfg : Config) (K : String → Prop) (s : Klited) (l : Step) : Prop :=
  Admits (fun g => g.modelled) l ∧ KeepsRecords cfg K s l ∧ WritesBackSettled K s l

section Next
variable {cfg : Config} {K : String → Prop} {s : Klited}

theorem returned_confirmed (hs : Sound cfg s) {th : Proc} (hu : s.threads[u]? = some th) (hr : Returned th n i) :
    Confirmed n i th.hist := by
  obtain ⟨p, req, resp, htag, rfl, hp, rfl⟩ := hr
  have hf := hs.conforms th (List.mem_of_getElem? hu)
  rw [hp, htag] at hf
  exact hf

theorem returned_of_prog {th th' : Proc} (htag : th'.tag = th.tag) (hp : th'.prog = th.prog ∨ th'.prog = .crash)
    (hr : Returned th' n i) : Returned th n i := by
  obtain ⟨p, req, resp, ht, hn, hpr, hi⟩ := hr
  rcases hp with hp | hp
  · exact ⟨p, req, resp, htag ▸ ht, hn, hp ▸ hpr, hi⟩
  · rw [hp] at hpr
    cases hpr

theorem indexInv_silent {l : Step} (hs : Sound cfg s) (hinv : IndexInv K s)
    (hidx : ∀ n, indexAt (s.next (body cfg) l).world n = indexAt s.world n) (hstep : ∀ t c, l ≠ .step t c) :
    IndexInv K (s.next (body cfg) l) := by
  have hth : ∀ (u : ℕ) (th' : Proc), (s.next (body cfg) l).threads[u]? = some th' →
      (∃ th, s.threads[u]? = some th ∧ th'.hist = th.hist ∧ ∀ n i, Returned th' n i → Returned th n i) ∨
      (th'.hist = [] ∧ ∀ n i, ¬ Returned th' n i) := by
    intro u th' hu
    rcases next_thread (body cfg) hu with ⟨th, hth, htag, hh, hp⟩ | ⟨g, -, rfl⟩ | ⟨c, _, _, _, hl, -⟩
    · exact Or.inl ⟨th, hth, hh, fun n i hr => returned_of_prog htag hp hr⟩
    · exact Or.inr ⟨rfl, fun n i hr => returned_confirmed (sound_next l hs) hu hr⟩
    · exact absurd hl (hstep u c)
  refine indexInv_quiet hinv hidx hth ?_
  intro u th hu
  obtain ⟨th', hu', -, -⟩ := next_keeps (body cfg) l hu
  rcases next_thread (body cfg) hu' with ⟨th₀, hth₀, -, hh, -⟩ | ⟨g, hl, rfl⟩ | ⟨c, _, _, _, hl, -⟩
  · obtain rfl : th₀ = th := Option.mem_unique hth₀ hu
    exact ⟨th', hu', hh⟩
  · subst hl
    have hlt := (List.getElem?_eq_some_iff.mp hu).1
    simp only [Sys.next, List.getElem?_append_left hlt, hu] at hu'
    rw [Option.some.inj hu']
    exact ⟨_, by simp only [Sys.next, List.getElem?_append_left hlt, hu, Option.some.inj hu'], rfl⟩
  · exact absurd hl (hstep u c)

theorem indexInv_next {l : Step} (hs : Sound cfg s) (hrun : Running (fun g => g.modelled) s)
    (hinv : IndexInv K s) (hc : IndexCond cfg K s l) : IndexInv K (s.next (body cfg) l) := by
  cases l with
  | spawn g => exact indexInv_silent hs hinv (fun _ => rfl) fun _ _ h => (by cases h)
  | abandon t => exact indexInv_silent hs hinv (fun _ => rfl) fun _ _ h => (by cases h)
  | move m =>
    obtain ⟨d, rfl⟩ := hc.1
    exact indexInv_silent hs hinv (fun _ => rfl) fun _ _ h => (by cases h)
  | step t c =>
    rcases next_step (body cfg) s t c with ⟨th, op, k, hth, hp, he⟩ | he
    · have hcall : s.Calls t th op := ⟨hth, k, hp⟩
      have hmod := hrun th (List.mem_of_getElem? hth)
      have hw := conforms_call hs.recorded hs.conforms hcall hmod
      have hs' := sound_next (.step t c) hs
      have hkeep := hc.2.1
      unfold KeepsRecords at hkeep
      rw [he] at hs' hkeep ⊢
      have hmove : ∀ n, K n → IndexMove th.hist s.world (exec c op s.world).2 n :=
        fun n hn => indexMove_of_change hmod (exec_change c hw) (hkeep n hn)
      change Sound cfg (afterCall s t th c op k) at hs'
      change IndexInv K (afterCall s t th c op k)
      refine ⟨fun u th' n i hu hn hcl => claimed_afterCall hinv hth hmove hu hn hcl,
        fun u u' th₁ th₂ n h₁ h₂ hn hc₁ hc₂ => soles_afterCall hinv hth hmove h₁ h₂ hn hc₁ hc₂,
        fun a b ha hb hab hua hub h0 => distinct_afterCall hinv hth hmove ha hb hab hua hub h0, ?_⟩
      intro u th' n i hu hn hr
      rcases afterCall_thread hth hu with ⟨rfl, rfl⟩ | ⟨hne, hu'⟩
      · refine confirmed_afterCall hinv hth hmove hn (returned_confirmed hs' hu hr) ?_
        intro o rev cur hop hon hcur hoi h0
        obtain ⟨p, req, -, htag, -⟩ := hr
        subst hop hon
        exact hc.2.2 th p req o rev cur hcall htag hn hcur hoi h0
      · obtain ⟨hi, h0, hun⟩ := hinv.returned u th' n i hu' hn hr
        exact returned_afterCall hth hmove hn hi h0 hun
    · rw [he]
      exact hinv

end Next

-- Two nodes never keep one index that Register handed to both.
def IndexesUnique (K : String → Prop) (s : Klited) : Prop :=
  ∀ (u u' : ℕ) (th th' : Proc) (a b : String) (i : Int), s.threads[u]? = some th →
    s.threads[u']? = some th' → K a → K b → a ≠ b → Returned th a i → Returned th' b i →
    ¬ (indexAt s.world a = i ∧ indexAt s.world b = i)

def IndexesKept (K : String → Prop) (s : Klited) : Prop :=
  ∀ (u : ℕ) (th : Proc) (a : String) (i : Int), s.threads[u]? = some th → K a → Returned th a i →
    indexAt s.world a = i

/-- Over every run from distinct stored indexes in which Register writes back settled
indexes only, in every state reached: indexes handed out are unique and kept. -/
theorem register_indexes (cfg : Config) (K : String → Prop) (w : World) (ls : List Step)
    (h0 : ∀ a b, K a → K b → a ≠ b → indexAt w a ≠ 0 → indexAt w a ≠ indexAt w b)
    (hc : Along (body cfg) (IndexCond cfg K) (start w) ls) :
    IndexesUnique K ((start w).run (body cfg) ls) ∧ IndexesKept K ((start w).run (body cfg) ls) := by
  have hnone : ∀ (u : ℕ) (th : Proc), (start w).threads[u]? = some th → False :=
    nofun
  have hstart : IndexInv K (start w) :=
    ⟨fun u th _ _ hu => (hnone u th hu).elim, fun u _ th _ _ hu => (hnone u th hu).elim,
      fun a b ha hb hab _ _ => h0 a b ha hb hab, fun u th _ _ hu => (hnone u th hu).elim⟩
  have hinv := run_invariant (body cfg)
    (fun s => Sound cfg s ∧ Running (fun g => g.modelled) s ∧ IndexInv K s) (IndexCond cfg K)
    (fun s l hi hl => ⟨sound_next l hi.1, running_next hi.2.1 hl.1, indexInv_next hi.1 hi.2.1 hi.2.2 hl⟩)
    (start w) ls ⟨sound_start w, fun th hth => (by cases hth), hstart⟩ hc
  generalize (start w).run (body cfg) ls = s at hinv
  obtain ⟨-, -, hinv⟩ := hinv
  refine ⟨?_, fun u th a i hu ha hr => (hinv.returned u th a i hu ha hr).1⟩
  rintro u u' th th' a b i hu hu' ha hb hab hr hr' ⟨hia, hib⟩
  obtain ⟨-, hi0, hua⟩ := hinv.returned u th a i hu ha hr
  obtain ⟨-, -, hub⟩ := hinv.returned u' th' b i hu' hb hr'
  exact hinv.distinct a b ha hb hab hua hub (by rw [hia]; exact hi0) (hia.trans hib.symm)

section Runs

def joins (node : String) : Call := .register .none { node := node, clusterToken := "join" }

def twoNodes : World :=
  ⟨((Store.empty.put 7 .node { metadata := { name := "a" } } revCreate).2.put 7 .node
    { metadata := { name := "b" } } revCreate).2, 7 * second⟩

/- Both nodes register at once, find index 1 free and write it, and both calls are cut
off before they list. Then both register again: the index is set, so neither lists. -/
def twiceSteps : List Step :=
  [.spawn (joins "a"), .spawn (joins "b"),
    .step 0 {}, .step 0 {}, .step 0 {}, .step 1 {}, .step 1 {}, .step 1 {},
    .step 0 {}, .step 1 {}, .abandon 0, .abandon 1,
    .spawn (joins "a"), .spawn (joins "b"),
    .step 2 {}, .step 2 {}, .step 2 {}, .step 3 {}, .step 3 {}, .step 3 {}]

theorem register_same_index_twice :
    ¬ IndexesUnique (fun _ => True) (tokenRun twoNodes twiceSteps) := by
  intro h
  refine h 2 3 _ _ "a" "b" 1 rfl rfl trivial trivial (by decide) ?_ ?_ ⟨?_, ?_⟩
  · exact ⟨_, _, _, rfl, rfl, rfl, rfl⟩
  · exact ⟨_, _, _, rfl, rfl, rfl, rfl⟩
  · rfl
  · rfl

-- Each node registers alone, and node a once more.
def restartSteps : List Step :=
  [.spawn (joins "a"), .step 0 {}, .step 0 {}, .step 0 {}, .step 0 {}, .step 0 {},
    .spawn (joins "b"), .step 1 {}, .step 1 {}, .step 1 {}, .step 1 {}, .step 1 {},
    .spawn (joins "a"), .step 2 {}, .step 2 {}, .step 2 {}]

def indexCheck (s : Klited) (l : Step) : Bool :=
  admitsCheck Call.modelled l &&
  (["a", "b"].all fun n => ((s.next (body tokenConfig) l).world.store.lookup .node n).isSome) &&
  match l with
  | .step t _ =>
    match standsAt s t with
    | some (.put .node _ _) =>
      ["a", "b"].all fun n => indexAt s.world n = 0 || s.threads.all fun th => claim n th.hist = none
    | _ => true
  | _ => true

theorem indexCond_of_check (s : Klited) (l : Step) (h : indexCheck s l) :
    IndexCond tokenConfig (· ∈ ["a", "b"]) s l := by
  simp only [indexCheck, Bool.and_eq_true, List.all_eq_true] at h
  obtain ⟨⟨hadm, hkeep⟩, hset⟩ := h
  refine ⟨admits_of_check hadm, fun n hm _ hn => ?_, ?_⟩
  · have hsome := hkeep n hm
    rw [hn] at hsome
    cases hsome
  · cases l with
    | step t c =>
      intro th p req o rev cur hcall _ hm hcur _ h0 u th' hu
      dsimp only at hset
      rw [standsAt_of_calls hcall] at hset
      simp only [List.all_eq_true, Bool.or_eq_true, decide_eq_true_eq] at hset
      rcases hset _ hm with hzero | hfree
      · exact absurd ((indexAt_of_lookup hcur).symm.trans hzero) h0
      · exact hfree th' (List.mem_of_getElem? hu)
    | _ => trivial

theorem restart_checked : checkAlong (body tokenConfig) indexCheck (start twoNodes) restartSteps ∧
    (∀ n ∈ ["a", "b"], indexAt twoNodes n = 0) ∧
    ["a", "b"].map (indexAt (tokenRun twoNodes restartSteps).world) = [1, 2] := by
  decide +kernel

theorem register_indexes_restart :
    IndexesUnique (· ∈ ["a", "b"]) (tokenRun twoNodes restartSteps) ∧
    IndexesKept (· ∈ ["a", "b"]) (tokenRun twoNodes restartSteps) ∧
    ["a", "b"].map (indexAt (tokenRun twoNodes restartSteps).world) = [1, 2] := by
  obtain ⟨hcheck, hzero, hindexes⟩ := restart_checked
  obtain ⟨hunique, hkept⟩ := register_indexes tokenConfig (· ∈ ["a", "b"]) twoNodes restartSteps
    (fun a _ ha _ _ hne => absurd (hzero a ha) hne)
    (along_of_check (body tokenConfig) indexCond_of_check _ _ hcheck)
  exact ⟨hunique, hkept, hindexes⟩

end Runs

end Klite
