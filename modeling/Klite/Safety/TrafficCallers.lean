import Klite.Lib.Runs
import Klite.Safety.Traffic

/-!
# Whose call it was

A poll gives calls to the callers whose queries are at most five seconds old, and forgets
which it gave.
-/

namespace Klite.Facade
open Lib Netd

/-- The node's DNS answers a query, or the feed polls; klite-net then reads its log at its own clock, if it answers. -/
inductive FeedStep where
  | query (sourceIP service : String) (now : Int)
  | poll (a : Answers) (clock : Option Int)

/-- A feed and the query log of one node, with the records made so far. -/
structure Feed where
  prev : Counters := ∅
  made : List TimedCall := []
  sent : List TrafficEvent := []

section Run
variable (name : String) (index : Int)

def Feed.recent (s : Feed) (since : Int) (clock : Option Int) : List QueryEntry :=
  (clock.map fun t => (logAfter s.made).since since t).getD []

-- The queries of the node come from its log.
def Feed.told (s : Feed) (a : Answers) (clock : Option Int) : Answers :=
  { a with queries := fun i since => if i = index then s.recent since clock else a.queries i since }

def Feed.next (s : Feed) : FeedStep → Feed
  | .query sourceIP service now => { s with made := s.made ++ [(.record sourceIP service, now)] }
  | .poll a clock =>
    { s with
      prev := (Facade.poll s.prev (s.told index a clock)).1
      sent := s.sent ++ (Facade.poll s.prev (s.told index a clock)).2 }

/-- In every poll at most one node has the name, and it has the index. -/
def OfNode : FeedStep → Prop
  | .query _ _ _ => True
  | .poll a _ => ∀ nodes, a.list = some nodes → (nodes.map fun n => n.metadata.name).Nodup ∧
      ∀ n ∈ nodes, n.metadata.name = name → n.index = index

/-- What moved on the node in a poll. -/
def Feed.movedOn (s : Feed) (a : Answers) : List TrafficEvent :=
  ((a.list.getD []).filter fun n => n.metadata.name = name).flatMap (moved s.prev a)

/-- The queries a poll reads for services that moved, with their numbers. -/
def Feed.takes (s : Feed) : FeedStep → List (QueryEntry × ℕ)
  | .query _ _ _ => []
  | .poll _ none => []
  | .poll a (some t) =>
    (Read.received ⟨s.made, a.now - 5000, t⟩).filter fun x => (s.movedOn name a).any (·.service = x.1.service)

def takings : Feed → List FeedStep → List (List (QueryEntry × ℕ))
  | _, [] => []
  | s, st :: sts => s.takes name st :: takings (s.next index st) sts

/-- A single call given to this caller of the service. -/
def Single (svc ip : String) (ev : TrafficEvent) : Bool := ev.node = name ∧ CalledBy svc ip ev ∧ ev.count = 1

def FeedStep.asks (svc ip : String) : FeedStep → Bool
  | .query sourceIP service _ => sourceIP = ip ∧ service = svc
  | .poll _ _ => false

def Asked (svc ip : String) (x : QueryEntry × ℕ) : Bool := x.1.service = svc ∧ x.1.sourceIP = ip

variable {name index}

/-! ### One poll -/

theorem single_called {svc ip : String} {ev : TrafficEvent} (h : Single name svc ip ev) : CalledBy svc ip ev := by
  unfold Single at h
  exact (of_decide_eq_true h).2.1

theorem single_elsewhere (prev : Counters) (a : Answers) {n : Node} (hn : n.metadata.name ≠ name) (svc ip : String) :
    (nodeEvents prev a n).countP (Single name svc ip) = 0 := by
  rw [List.countP_eq_zero]
  intro ev hev hsingle
  obtain ⟨ev', hev', count, caller, rfl⟩ := mem_attributeAll hev
  unfold Single at hsingle
  exact hn ((moved_event prev a hev').1.symm.trans (of_decide_eq_true hsingle).1)

variable {s : Feed} {ip : String}

theorem single_here {a : Answers} {clock : Option Int} {n : Node} (hin : n ∈ a.list.getD [])
    (hname : n.metadata.name = name) (hindex : n.index = index) (svc : String) (hip : ip ≠ "") :
    (nodeEvents s.prev (s.told index a clock) n).countP (Single name svc ip) ≤
      (s.takes name (.poll a clock)).countP (Asked svc ip) := by
  have hcaller : ∀ ev ∈ moved s.prev a n, ev.caller ≠ ip := by
    intro ev hev h
    exact hip (h.symm.trans (moved_event s.prev a hev).2.2)
  have hle : (nodeEvents s.prev (s.told index a clock) n).countP (Single name svc ip) ≤ _ :=
    (List.countP_mono_left fun ev _ => single_called).trans
      (calledBy_attributeAll svc ((s.told index a clock).queries n.index (a.now - 5000)) hcaller)
  have hqueries : (s.told index a clock).queries n.index (a.now - 5000) = s.recent (a.now - 5000) clock := by
    unfold Feed.told
    dsimp only
    rw [if_pos hindex]
  rw [hqueries] at hle
  refine hle.trans ?_
  split
  · next hany =>
    cases clock with
    | none => exact Nat.zero_le _
    | some t =>
      -- What moved for the service is among what moved on the node, so none of its queries is filtered out.
      have hmoved : (s.movedOn name a).any (·.service = svc) := by
        obtain ⟨ev, hev, hsvc⟩ := List.any_eq_true.mp hany
        refine List.any_eq_true.mpr ⟨ev, List.mem_flatMap.mpr ⟨n, ?_, hev⟩, hsvc⟩
        exact List.mem_filter.mpr ⟨hin, decide_eq_true hname⟩
      have hanswer : s.recent (a.now - 5000) (some t) = (Read.received ⟨s.made, a.now - 5000, t⟩).map (·.1) :=
        (Read.received_answer ⟨s.made, a.now - 5000, t⟩).symm
      rw [hanswer, List.countP_map]
      unfold Feed.takes
      rw [List.countP_filter]
      apply List.countP_mono_left
      intro x _ hx
      have hx' : x.1.service = svc ∧ x.1.sourceIP = ip := of_decide_eq_true hx
      have hpaid : Asked svc ip x := decide_eq_true hx'
      rw [hpaid, hx'.1, hmoved]
      rfl
  · exact Nat.zero_le _

theorem single_nodes {a : Answers} {clock : Option Int} (svc : String) (hip : ip ≠ "") {nodes : List Node}
    (hnodup : (nodes.map fun n => n.metadata.name).Nodup)
    (hindex : ∀ n ∈ nodes, n.metadata.name = name → n.index = index) (hin : ∀ n ∈ nodes, n ∈ a.list.getD []) :
    (nodes.flatMap (nodeEvents s.prev (s.told index a clock))).countP (Single name svc ip) ≤
      (s.takes name (.poll a clock)).countP (Asked svc ip) := by
  induction nodes with
  | nil => exact Nat.zero_le _
  | cons n nodes ih =>
    rw [List.map_cons, List.nodup_cons] at hnodup
    rw [List.flatMap_cons, List.countP_append]
    by_cases hn : n.metadata.name = name
    · have hrest : (nodes.flatMap (nodeEvents s.prev (s.told index a clock))).countP (Single name svc ip) = 0 := by
        rw [List.countP_flatMap, List.sum_eq_zero]
        intro c hc
        obtain ⟨m, hm, rfl⟩ := List.mem_map.mp hc
        refine single_elsewhere _ _ (fun hname => hnodup.1 ?_) svc ip
        exact List.mem_map.mpr ⟨m, hm, hname.trans hn.symm⟩
      rw [hrest, Nat.add_zero]
      exact single_here (hin n List.mem_cons_self) hn (hindex n List.mem_cons_self hn) svc hip
    · rw [single_elsewhere _ _ hn, Nat.zero_add]
      exact ih hnodup.2 (fun m hm => hindex m (List.mem_cons_of_mem _ hm)) fun m hm => hin m (List.mem_cons_of_mem _ hm)

theorem single_step {st : FeedStep} (hnode : OfNode name index st) (svc : String) (hip : ip ≠ "") :
    (s.next index st).sent.countP (Single name svc ip) ≤
      s.sent.countP (Single name svc ip) + (s.takes name st).countP (Asked svc ip) := by
  cases st with
  | query sourceIP service now => exact Nat.le_add_right _ _
  | poll a clock =>
    show (s.sent ++ (Facade.poll s.prev (s.told index a clock)).2).countP _ ≤ _
    rw [List.countP_append]
    apply Nat.add_le_add_left
    cases hlist : a.list with
    | none =>
      unfold Facade.poll
      rw [show (s.told index a clock).list = none from hlist]
      exact Nat.zero_le _
    | some nodes =>
      rw [poll_eq s.prev (s.told index a clock) hlist]
      obtain ⟨hnodup, hindex⟩ := hnode nodes hlist
      refine single_nodes svc hip hnodup hindex fun n hn => ?_
      rw [hlist]
      exact hn

/-! ### A run -/

theorem single_run (steps : List FeedStep) (hnode : ∀ st ∈ steps, OfNode name index st) (svc : String) (hip : ip ≠ "") :
    (runs (Feed.next index) s steps).sent.countP (Single name svc ip) ≤
      s.sent.countP (Single name svc ip) + (takings name index s steps).flatten.countP (Asked svc ip) := by
  induction steps generalizing s with
  | nil => exact Nat.le_add_right _ _
  | cons st steps ih =>
    have hstep := single_step (s := s) (hnode st List.mem_cons_self) svc hip
    have hrest : (runs (Feed.next index) (s.next index st) steps).sent.countP (Single name svc ip) ≤ _ :=
      ih fun t ht => hnode t (List.mem_cons_of_mem _ ht)
    show (runs (Feed.next index) (s.next index st) steps).sent.countP _ ≤
      _ + (s.takes name st ++ (takings name index (s.next index st) steps).flatten).countP _
    rw [List.countP_append]
    omega

theorem made_grows (steps : List FeedStep) (s : Feed) : s.made <+: (runs (Feed.next index) s steps).made := by
  induction steps generalizing s with
  | nil => exact List.prefix_refl _
  | cons st steps ih =>
    refine List.IsPrefix.trans ?_ (ih (s.next index st))
    cases st with
    | query sourceIP service now => exact List.prefix_append _ _
    | poll a clock => exact List.prefix_refl _

theorem takes_received {st : FeedStep} {x : QueryEntry × ℕ} (h : x ∈ s.takes name st) :
    (recorded s.made)[x.2]? = some x.1 := by
  unfold Feed.takes at h
  split at h
  · cases h
  · cases h
  · exact (Read.mem_received.mp (List.mem_of_mem_filter h)).1

theorem takings_recorded (steps : List FeedStep) {x : QueryEntry × ℕ} (h : x ∈ (takings name index s steps).flatten) :
    x ∈ (recorded (runs (Feed.next index) s steps).made).zipIdx := by
  induction steps generalizing s with
  | nil => cases h
  | cons st steps ih =>
    rcases List.mem_append.mp (show x ∈ s.takes name st ++ (takings name index (s.next index st) steps).flatten from h) with h | h
    · rw [List.mk_mem_zipIdx_iff_getElem?]
      obtain ⟨rest, hrest⟩ : s.made <+: (runs (Feed.next index) s (st :: steps)).made := made_grows (st :: steps) s
      obtain ⟨hlt, hx⟩ := List.getElem?_eq_some_iff.mp (takes_received h)
      unfold recorded at hlt hx ⊢
      rw [← hrest, List.filterMap_append, List.getElem?_append_left hlt, List.getElem?_eq_getElem hlt, hx]
    · exact ih h

theorem takes_nodup (s : Feed) (st : FeedStep) : (s.takes name st).Nodup := by
  unfold Feed.takes
  split
  · exact List.nodup_nil
  · exact List.nodup_nil
  · apply List.Nodup.filter
    apply List.Nodup.filter
    apply List.Nodup.sublist (List.drop_sublist _ _)
    apply List.Nodup.of_map Prod.snd
    rw [List.zipIdx_map_snd]
    exact List.nodup_range'

theorem takings_nodup (steps : List FeedStep) (s : Feed) : ∀ l ∈ takings name index s steps, l.Nodup := by
  induction steps generalizing s with
  | nil =>
    nofun
  | cons st steps ih =>
    intro l hl
    rcases List.mem_cons.mp hl with rfl | hl
    · exact takes_nodup s st
    · exact ih _ l hl

theorem recorded_asks (steps : List FeedStep) (s : Feed) (svc ip : String) :
    (recorded (runs (Feed.next index) s steps).made).countP (fun e => e.service = svc ∧ e.sourceIP = ip) =
      (recorded s.made).countP (fun e => e.service = svc ∧ e.sourceIP = ip) + steps.countP (FeedStep.asks svc ip) := by
  induction steps generalizing s with
  | nil => rfl
  | cons st steps ih =>
    show (recorded (runs (Feed.next index) (s.next index st) steps).made).countP _ = _
    rw [ih, List.countP_cons]
    cases st with
    | poll a clock => rfl
    | query sourceIP service now =>
      show (recorded (s.made ++ [(.record sourceIP service, now)])).countP _ + _ = _
      unfold recorded
      rw [List.filterMap_append, List.countP_append]
      have hone : ([(LogCall.record sourceIP service, now)].filterMap entryOf).countP (fun e => e.service = svc ∧ e.sourceIP = ip) =
          if FeedStep.asks svc ip (.query sourceIP service now) then 1 else 0 := by
        show [(⟨sourceIP, service, unixMilli now⟩ : QueryEntry)].countP _ = _
        rw [List.countP_singleton]
        unfold FeedStep.asks
        simp only [and_comm]
      rw [hone]
      omega

end Run

/-- A query gives at most one call, over any run of queries and polls in which no query is read by two polls that both see
its service move. -/
theorem queries_pay_once (name : String) (index : Int) (prev : Counters) (steps : List FeedStep)
    (hnode : ∀ st ∈ steps, OfNode name index st) (honce : (takings name index { prev := prev } steps).Pairwise List.Disjoint)
    (svc ip : String) (hip : ip ≠ "") :
    (runs (Feed.next index) { prev := prev } steps).sent.countP (Single name svc ip) ≤
      steps.countP (FeedStep.asks svc ip) := by
  let final := runs (Feed.next index) { prev := prev } steps
  have hnodup : (takings name index { prev := prev } steps).flatten.Nodup :=
    List.nodup_flatten.mpr ⟨takings_nodup steps _, honce⟩
  -- Each paid query is one of the recorded ones, by its number.
  have hsub : (takings name index { prev := prev } steps).flatten.filter (Asked svc ip) ⊆
      (recorded final.made).zipIdx.filter (Asked svc ip) := by
    intro x hx
    obtain ⟨hin, hasked⟩ := List.mem_filter.mp hx
    exact List.mem_filter.mpr ⟨takings_recorded steps hin, hasked⟩
  calc final.sent.countP (Single name svc ip)
    _ ≤ 0 + (takings name index { prev := prev } steps).flatten.countP (Asked svc ip) := single_run steps hnode svc hip
    _ = ((takings name index { prev := prev } steps).flatten.filter (Asked svc ip)).length := by
      rw [Nat.zero_add, List.countP_eq_length_filter]
    _ ≤ ((recorded final.made).zipIdx.filter (Asked svc ip)).length :=
      (List.subperm_of_subset (hnodup.filter _) hsub).length_le
    _ = ((recorded final.made).zipIdx.map (·.1)).countP (fun e => e.service = svc ∧ e.sourceIP = ip) := by
      rw [← List.countP_eq_length_filter, List.countP_map]
      rfl
    _ = steps.countP (FeedStep.asks svc ip) := by
      rw [List.zipIdx_map_fst, recorded_asks]
      exact Nat.zero_add _

/-! ### One query, two calls -/

def webSteps (first second third : ℕ) : List FeedStep :=
  [.poll (webAnswers 1000 first []) (some (10 ^ 9)), .query "10.44.128.9" "web" (1500 * 10 ^ 6),
    .poll (webAnswers 2000 second []) (some (2 * 10 ^ 9)), .poll (webAnswers 3000 third []) (some (3 * 10 ^ 9))]

theorem webSteps_node (first second third : ℕ) : ∀ st ∈ webSteps first second third, OfNode "a" 1 st := by
  have hpoll : ∀ now v clock, OfNode "a" 1 (.poll (webAnswers now v []) clock) := by
    intro now v clock nodes hnodes
    cases hnodes
    exact ⟨by decide, by decide⟩
  intro st hst
  unfold webSteps at hst
  simp only [List.mem_cons, List.not_mem_nil, or_false] at hst
  rcases hst with rfl | rfl | rfl | rfl
  · exact hpoll _ _ _
  · trivial
  · exact hpoll _ _ _
  · exact hpoll _ _ _

/-- The counter moves by one in each of the two polls after the query. -/
theorem query_pays_twice : (∀ st ∈ webSteps 3 4 5, OfNode "a" 1 st) ∧
    (runs (Feed.next 1) {} (webSteps 3 4 5)).sent.countP (Single "a" "web" "10.44.128.9") = 2 ∧
    (webSteps 3 4 5).countP (FeedStep.asks "web" "10.44.128.9") = 1 :=
  ⟨webSteps_node 3 4 5, by decide +kernel, by decide +kernel⟩

theorem queries_pay_once_web : (runs (Feed.next 1) {} (webSteps 3 4 4)).sent.countP (Single "a" "web" "10.44.128.9") ≤ 1 :=
  queries_pay_once "a" 1 ∅ (webSteps 3 4 4) (webSteps_node 3 4 4)
    (List.nodup_flatten.mp (by decide +kernel)).2 "web" "10.44.128.9" (by decide)

end Klite.Facade
