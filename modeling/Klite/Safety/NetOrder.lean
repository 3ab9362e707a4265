import Klite.Safety.NetCatchUp

/-!
# Pushes that overtake each other

The agent makes its passes one after the other, but a push it has given up on stays with
the daemon. Each request is handled by a goroutine of its own that waits for the lock of
`ApplyConfig`, and the lock may be taken in any order.
-/

namespace Klite
open Lib Netd

/-- A push the daemon has received, and its answer. -/
structure NetRequest where
  net : NetDesired
  answer : Option (Except String Unit) := none

/-- Where the agent's net loop stands in a pass. -/
inductive NetPhase where
  | idle
  | polled (desired : NetDesired) (vipsBound : ℕ)
  | waiting (push : ℕ) (desired : NetDesired)

/-- Requests are numbered in the order they are pushed. `marked` has the pushes that were marked
as applied. -/
structure NetSys where
  agent : NetAgent := {}
  daemon : Daemon := {}
  phase : NetPhase := .idle
  requests : List NetRequest := []
  marked : List ℕ := []

inductive NetStep where
  | snapshot (net : Option NetDesired)
  | poll
  | decide (rep : NetReport)
  | take (push : ℕ)
  | answer (rep : NetReport)
  | giveUp
  | restart

/-- The daemon is gone before it answered. -/
def NetRequest.lose (r : NetRequest) : NetRequest :=
  if r.answer.isNone then { r with answer := some (.error "transport is closing") } else r

namespace NetSys

/-- The request waits for the lock. -/
def Queued (s : NetSys) (i : ℕ) : Prop := ∃ net, s.requests[i]? = some ⟨net, none⟩

def next (s : NetSys) : NetStep → NetSys
  | .snapshot net => { s with agent := s.agent.takeSnapshot net }
  | .poll =>
    match s.phase, s.agent.currentNet with
    | .idle, some desired => { s with phase := .polled desired s.daemon.vipsBound }
    | _, _ => s
  | .decide rep =>
    match s.phase with
    | .polled desired vipsBound =>
      if s.agent.needNetPush desired vipsBound then
        { s with phase := .waiting s.requests.length desired, requests := s.requests ++ [⟨desired, none⟩] }
      else { s with phase := .idle, agent := s.agent.finishSync rep }
    | _ => s
  | .take i =>
    match s.requests[i]? with
    | some ⟨net, none⟩ =>
      { s with
        daemon := (s.daemon.applyConfig net).2
        requests := s.requests.set i ⟨net, some (s.daemon.applyConfig net).1⟩ }
    | _ => s
  | .answer rep =>
    match s.phase with
    | .waiting i desired =>
      match s.requests[i]?.bind (·.answer) with
      | some (.ok _) =>
        { s with
          phase := .idle
          agent := (s.agent.markNetApplied desired).finishSync rep
          marked := i :: s.marked }
      | some (.error _) => { s with phase := .idle, agent := s.agent.setNetHealthy false }
      | none => s
    | _ => s
  | .giveUp =>
    match s.phase with
    | .idle => s
    | _ => { s with phase := .idle, agent := s.agent.setNetHealthy false }
  | .restart => { s with daemon := {}, requests := s.requests.map NetRequest.lose }

/-- A pass whose push is taken and answered at once is one call of `syncNet`. -/
theorem pass_syncNet {s : NetSys} (h : s.phase = .idle) (rep : NetReport) :
    let s' := runs next s [.poll, .decide rep, .take s.requests.length, .answer rep]
    (s'.agent, s'.daemon) = (syncNet s.agent s.daemon rep).2 ∧ s'.phase = .idle := by
  obtain ⟨agent, daemon, phase, requests, marked⟩ := s
  obtain rfl := h
  unfold syncNet
  cases hcur : agent.currentNet with
  | none => simp [runs, next, hcur]
  | some desired =>
    cases hneed : agent.needNetPush desired daemon.vipsBound with
    | false => simp [runs, next, hcur, hneed]
    | true =>
      cases ha : daemon.applyConfig desired with
      | mk res d =>
        cases res <;> simp [runs, next, hcur, hneed, ha]

/-- The lock goes to the oldest request that waits for it. -/
def InTurn (s : NetSys) : NetStep → Prop
  | .take i => s.Queued i → ∀ j < i, ¬ s.Queued j
  | _ => True

/-- No configuration replaces the stored one that was pushed before one marked as applied. -/
def NoneOlder (s : NetSys) : NetStep → Prop
  | .take i => ∀ net, s.requests[i]? = some ⟨net, none⟩ → (s.daemon.applyConfig net).1 = .ok () → ∀ m ∈ s.marked, m ≤ i
  | _ => True

/-- Requests are answered in the order they were pushed. -/
structure Orderly (s : NetSys) : Prop where
  inOrder : ∀ i j, j < i → s.Queued j → i < s.requests.length → s.Queued i
  marked : ∀ m ∈ s.marked, m < s.requests.length ∧ ¬ s.Queued m

theorem orderly_same {s s' : NetSys} (hs : Orderly s) (hr : s'.requests = s.requests) (hm : s'.marked = s.marked) :
    Orderly s' := by
  obtain ⟨agent, daemon, phase, requests, marked⟩ := s'
  obtain rfl := hr
  obtain rfl := hm
  exact ⟨hs.inOrder, hs.marked⟩

theorem orderly_push {s s' : NetSys} (hs : Orderly s) {net : NetDesired} (hr : s'.requests = s.requests ++ [⟨net, none⟩])
    (hm : s'.marked = s.marked) : Orderly s' := by
  have hold : ∀ j, j < s.requests.length → (s'.Queued j ↔ s.Queued j) := by
    intro j hj
    unfold Queued
    rw [hr, List.getElem?_append_left hj]
  have hlen : s'.requests.length = s.requests.length + 1 := by
    rw [hr, List.length_append]
    rfl
  constructor
  · intro i j hji hj hi
    have hjlen : j < s.requests.length := by omega
    rcases Nat.lt_or_ge i s.requests.length with hilt | hige
    · exact (hold i hilt).mpr (hs.inOrder i j hji ((hold j hjlen).mp hj) hilt)
    · obtain rfl : i = s.requests.length := by omega
      refine ⟨net, ?_⟩
      rw [hr, List.getElem?_append_right (le_refl _), Nat.sub_self]
      rfl
  · intro m hmem
    rw [hm] at hmem
    have hmarked := hs.marked m hmem
    refine ⟨by omega, ?_⟩
    rw [hold m hmarked.1]
    exact hmarked.2

theorem orderly_take {s s' : NetSys} (hs : Orderly s) {i : ℕ} {r : NetRequest}
    (hturn : ∀ j < i, ¬ s.Queued j) (hanswered : r.answer ≠ none) (hr : s'.requests = s.requests.set i r)
    (hm : s'.marked = s.marked) : Orderly s' := by
  have hsub : ∀ j, s'.Queued j → s.Queued j ∧ j ≠ i := by
    rintro j ⟨net, hj⟩
    rw [hr, List.getElem?_set] at hj
    split at hj
    · split at hj
      · cases hj
        exact absurd rfl hanswered
      · cases hj
    · rename_i hne
      exact ⟨⟨net, hj⟩, fun h => hne h.symm⟩
  have hlen : s'.requests.length = s.requests.length := by rw [hr, List.length_set]
  constructor
  · intro k j hjk hj hk
    obtain ⟨hjq, -⟩ := hsub j hj
    rw [hlen] at hk
    obtain ⟨net, hkq⟩ := hs.inOrder k j hjk hjq hk
    have hne : i ≠ k := by
      rintro rfl
      exact hturn j hjk hjq
    exact ⟨net, by rw [hr, List.getElem?_set_ne hne]; exact hkq⟩
  · intro m hmem
    rw [hm] at hmem
    have hmarked := hs.marked m hmem
    exact ⟨by rw [hlen]; exact hmarked.1, fun hq' => hmarked.2 (hsub m hq').1⟩

theorem lose_answered (r : NetRequest) : r.lose.answer ≠ none := by
  unfold NetRequest.lose
  cases hr : r.answer with
  | none => simp
  | some a => simp [hr]

theorem orderly_next {s : NetSys} (hs : Orderly s) (l : NetStep) (hturn : s.InTurn l) : Orderly (s.next l) := by
  cases l with
  | snapshot net => exact orderly_same hs rfl rfl
  | poll =>
    unfold next
    dsimp only
    split <;> exact orderly_same hs rfl rfl
  | decide rep =>
    unfold next
    dsimp only
    split
    · split
      · exact orderly_push hs rfl rfl
      · exact orderly_same hs rfl rfl
    · exact hs
  | take i =>
    unfold next
    dsimp only
    split
    · rename_i net hi
      exact orderly_take hs (hturn ⟨net, hi⟩) (by simp) rfl rfl
    · exact hs
  | answer rep =>
    unfold next
    dsimp only
    split
    · rename_i i desired hphase
      split
      · rename_i u ha
        obtain ⟨r, hr, hans⟩ := Option.bind_eq_some_iff.mp ha
        refine ⟨hs.inOrder, ?_⟩
        intro m hmem
        rcases List.mem_cons.mp hmem with rfl | hold
        · refine ⟨(List.getElem?_eq_some_iff.mp hr).1, ?_⟩
          rintro ⟨net, hq⟩
          obtain rfl := Option.mem_unique hr hq
          cases hans
        · exact hs.marked m hold
      · exact orderly_same hs rfl rfl
      · exact hs
    · exact hs
  | giveUp =>
    unfold next
    dsimp only
    split
    · exact hs
    · exact orderly_same hs rfl rfl
  | restart =>
    have hnone : ∀ i, ¬ (s.next .restart).Queued i := by
      rintro i ⟨net, hi⟩
      change (s.requests.map NetRequest.lose)[i]? = some ⟨net, none⟩ at hi
      rw [List.getElem?_map] at hi
      obtain ⟨r, -, hr⟩ := Option.map_eq_some_iff.mp hi
      exact lose_answered r (by rw [hr])
    refine ⟨fun i j _ hj _ => absurd hj (hnone j), ?_⟩
    intro m hmem
    have hlen : (s.next .restart).requests.length = s.requests.length := List.length_map _
    exact ⟨by rw [hlen]; exact (hs.marked m hmem).1, hnone m⟩

theorem noneOlder_of_orderly {s : NetSys} (hs : Orderly s) (l : NetStep) : s.NoneOlder l := by
  cases l with
  | take i =>
    intro net hi _ m hm
    obtain ⟨hlen, hanswered⟩ := hs.marked m hm
    refine Nat.le_of_not_lt fun hlt => ?_
    exact hanswered (hs.inOrder m i hlt ⟨net, hi⟩ hlen)
  | _ => trivial

theorem orderly_start : Orderly {} where
  inOrder i j _ hj _ := by
    obtain ⟨net, hj⟩ := hj
    cases hj
  marked m hm := by cases hm

end NetSys

/-- In every run in which the lock goes to the oldest waiting request, no configuration pushed before
one that was marked as applied replaces what the daemon has stored. -/
theorem older_config_never_sticks {ls : List NetStep} (h : Each NetSys.next NetSys.InTurn {} ls) :
    Each NetSys.next NetSys.NoneOlder {} ls := by
  have hstep : ∀ s l, NetSys.Orderly s → NetSys.InTurn s l → NetSys.NoneOlder s l ∧ NetSys.Orderly (s.next l) := by
    intro s l hs hl
    exact ⟨NetSys.noneOlder_of_orderly hs l, NetSys.orderly_next hs l hl⟩
  exact each_of_invariant hstep NetSys.orderly_start h

def webAt (vip : String) : NetDesired := { services := [⟨"web", vip, 80, 8080⟩] }

def dnsUp : NetReport := ⟨true, []⟩

/-- A push that the agent gives up on, and the push of the next configuration. -/
def twoPushes : List NetStep :=
  [.snapshot (some (webAt "10.44.64.1")), .poll, .decide dnsUp, .giveUp, .snapshot (some (webAt "10.44.64.2")), .poll,
    .decide dnsUp]

def lateTake : List NetStep := twoPushes ++ [.take 1, .answer dnsUp, .take 0]

/-- The first push gets the lock after the second one was answered. The daemon is left with the old
address, and the next pass finds nothing to push. -/
theorem older_config_sticks : ¬ Each NetSys.next NetSys.NoneOlder {} lateTake ∧
      (runs NetSys.next {} lateTake).agent.appliedNet = some (webAt "10.44.64.2") ∧
      (runs NetSys.next {} lateTake).daemon.cfg.vips.toList = [("web", ⟨false, 170672129, ""⟩)] ∧
      (runs NetSys.next {} (lateTake ++ [.poll, .decide dnsUp])).requests.length = 2 := by
  refine ⟨?_, rfl, by decide +kernel, by decide +kernel⟩
  rintro ⟨-, -, -, -, -, -, -, -, -, hlast, -⟩
  have hle := hlast (webAt "10.44.64.1") rfl rfl 1 (by decide +kernel)
  exact absurd hle (by decide)

/-- Each push is taken in its turn, and a third one after the second was marked. -/
def inTurnTakes : List NetStep :=
  twoPushes ++ [.take 0, .take 1, .answer dnsUp, .snapshot (some (webAt "10.44.64.3")), .poll, .decide dnsUp, .take 2,
    .answer dnsUp]

theorem not_queued_of_answer {s : NetSys} {i : ℕ} (h : (s.requests[i]?.any (·.answer.isSome)) = true) : ¬ s.Queued i := by
  rintro ⟨net, hq⟩
  rw [hq] at h
  cases h

theorem older_config_never_sticks_in_turn : Each NetSys.next NetSys.NoneOlder {} inTurnTakes ∧
    (runs NetSys.next {} inTurnTakes).marked = [2, 1] ∧
    (runs NetSys.next {} inTurnTakes).daemon.cfg.vips.toList = [("web", ⟨false, 170672131, ""⟩)] := by
  refine ⟨older_config_never_sticks ?_, by decide +kernel, by decide +kernel⟩
  have hturn : ∀ (s : NetSys) (i : ℕ), (∀ j < i, (s.requests[j]?.any (·.answer.isSome)) = true) → s.InTurn (.take i) :=
    fun s i h _ j hj => not_queued_of_answer (h j hj)
  exact ⟨trivial, trivial, trivial, trivial, trivial, trivial, trivial, hturn _ 0 (by decide +kernel),
    hturn _ 1 (by decide +kernel), trivial, trivial, trivial, trivial, hturn _ 2 (by decide +kernel), trivial, trivial⟩

end Klite
