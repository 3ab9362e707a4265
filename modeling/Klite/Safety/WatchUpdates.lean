import Klite.Controller.EndpointsSpec
import Klite.Server.Watch

/-!
# WatchDesired loses no update

A pass kicks every subscriber when anything changed, and a kick that finds the slot
full is dropped. A loop subscribes before it reads, so a snapshot it holds is the
current one or a kick waits in its slot.
-/

namespace Klite
open Lib

def Watch.sub (w : Watch) : Option ℕ :=
  match w.phase with
  | .reading id | .sending id _ | .waiting id => some id
  | _ => none

def Watch.blocked (w : Watch) (h : Hub) : Prop := ∃ id, w.phase = .waiting id ∧ h.subs[id]? = some false

/- What holds of one stream: what it sent is known to the engine, and the snapshot it holds is
current unless a kick waits in its slot. -/
structure WatchOk (h : Hub) (w : Watch) : Prop where
  slot : ∀ id, w.sub = some id → id < h.nextSub ∧ h.subs[id]?.isSome
  silent : w.sent = [] → w.lastSent = -1
  sent : ∀ snap, w.sent.head? = some snap → w.lastSent = snap.revision ∧ Known h.engine w.node snap
  sending : ∀ id snap, w.phase = .sending id snap → Known h.engine w.node snap ∧
    (h.subs[id]? = some true ∨ snap.content = (h.engine.current w.node).content)
  waiting : ∀ id, w.phase = .waiting id → h.subs[id]? = some true ∨ h.engine.ready = false ∨
    ∃ snap, w.sent.head? = some snap ∧ snap.content = (h.engine.current w.node).content

section Slots
variable {h h' : Hub} {w : Watch}

theorem watchOk_slots (he : h'.engine = h.engine) (hn : h.nextSub ≤ h'.nextSub)
    (hs : ∀ id, w.sub = some id → h'.subs[id]? = h.subs[id]?) (hw : WatchOk h w) : WatchOk h' w := by
  refine ⟨?_, hw.silent, ?_, ?_, ?_⟩
  · intro id hid
    have hold := hw.slot id hid
    rw [hs id hid]
    exact ⟨by omega, hold.2⟩
  · rw [he]
    exact hw.sent
  · intro id snap hp
    rw [he, hs id (by simp [Watch.sub, hp])]
    exact hw.sending id snap hp
  · intro id hp
    rw [he, hs id (by simp [Watch.sub, hp])]
    exact hw.waiting id hp

theorem subs_store (h : Hub) (built : Snapshots) (id : ℕ) :
    (h.store built).subs[id]? = if h.kicks built then h.subs[id]?.map fun _ => true else h.subs[id]? := by
  unfold Hub.store
  dsimp only
  split
  · rw [Std.ExtTreeMap.getElem?_map]
  · rfl

theorem content_unkicked {built : Snapshots} (hk : h.kicks built = false) (node : String) :
    h.engine.ready ∧ ((h.engine.store built).current node).content = (h.engine.current node).content := by
  simp only [Hub.kicks, decide_eq_false_iff_not, not_or, not_not, Bool.not_eq_true, Bool.not_eq_false'] at hk
  refine ⟨hk.2, ?_⟩
  rcases store_cases h.engine built node with ⟨hc, -⟩ | ⟨-, -, -, hcont⟩ | ⟨hnone, -, hempty⟩
  · rw [hk.1] at hc
    cases hc
  · exact hcont
  · rw [store_current_none hnone, hempty]

theorem watchOk_store (built : Snapshots) (hw : WatchOk h w) : WatchOk (h.store built) w := by
  have hsub : ∀ id, w.sub = some id →
      (h.store built).subs[id]?.isSome ∧ (h.kicks built → (h.store built).subs[id]? = some true) ∧
      (h.subs[id]? = some true → (h.store built).subs[id]? = some true) := by
    intro id hid
    obtain ⟨b, hb⟩ := Option.isSome_iff_exists.mp (hw.slot id hid).2
    rw [subs_store, hb]
    cases hk : h.kicks built <;> simp
  refine ⟨?_, hw.silent, ?_, ?_, ?_⟩
  · intro id hid
    exact ⟨(hw.slot id hid).1, (hsub id hid).1⟩
  · intro snap hs
    exact ⟨(hw.sent snap hs).1, known_store built (hw.sent snap hs).2⟩
  · intro id snap hp
    obtain ⟨hknown, hcur⟩ := hw.sending id snap hp
    have hs := hsub id (by simp [Watch.sub, hp])
    refine ⟨known_store built hknown, ?_⟩
    cases hk : h.kicks built with
    | true => exact Or.inl (hs.2.1 hk)
    | false =>
      rcases hcur with htok | hcont
      · exact Or.inl (hs.2.2 htok)
      · exact Or.inr (hcont.trans (content_unkicked hk w.node).2.symm)
  · intro id hp
    have hs := hsub id (by simp [Watch.sub, hp])
    cases hk : h.kicks built with
    | true => exact Or.inl (hs.2.1 hk)
    | false =>
      obtain ⟨hready, hcont⟩ := content_unkicked hk w.node
      rcases hw.waiting id hp with htok | hnot | ⟨snap, hsent, hsnap⟩
      · exact Or.inl (hs.2.2 htok)
      · rw [hready] at hnot
        cases hnot
      · exact Or.inr (Or.inr ⟨snap, hsent, hsnap.trans hcont.symm⟩)

end Slots

theorem watchOk_step {h : Hub} {w : Watch} (hv : Versioned h.engine) (hw : WatchOk h w) (alive : Bool) :
    WatchOk (w.step h alive).2 (w.step h alive).1 := by
  have hclosed : ∀ h' : Hub, h'.engine = h.engine → WatchOk h' { w with phase := .closed } := by
    intro h' he
    refine ⟨fun id hid => by simp [Watch.sub] at hid, hw.silent, ?_, fun _ _ hp => by simp at hp, fun _ hp => by simp at hp⟩
    rw [he]
    exact hw.sent
  unfold Watch.step
  cases hp : w.phase with
  | subscribing =>
    refine ⟨?_, hw.silent, hw.sent, fun _ _ hp' => by simp at hp', fun _ hp' => by simp at hp'⟩
    intro id hid
    obtain rfl : h.nextSub = id := by simpa [Watch.sub] using hid
    simp [Hub.subscribe]
  | reading id =>
    have hslot : ∀ id', some id = some id' → id' < h.nextSub ∧ h.subs[id']?.isSome := by
      intro id' hid
      exact hw.slot id' (by simpa [Watch.sub, hp] using hid)
    dsimp only
    cases hsnap : h.engine.snapshot w.node with
    | none =>
      have hnot : h.engine.ready = false := by
        by_contra hr
        rw [snapshot_ready (by simpa using hr)] at hsnap
        cases hsnap
      exact ⟨hslot, hw.silent, hw.sent, fun _ _ hp' => by simp at hp', fun _ _ => Or.inr (Or.inl hnot)⟩
    | some snap =>
      obtain ⟨rfl, hready⟩ := snapshot_current hsnap
      dsimp only
      split
      · refine ⟨hslot, hw.silent, hw.sent, ?_, fun _ hp' => by simp at hp'⟩
        intro id' snap' hp'
        obtain ⟨-, rfl⟩ := WatchPhase.sending.inj hp'
        exact ⟨known_current hv w.node, Or.inr rfl⟩
      · rename_i hrev
        refine ⟨hslot, hw.silent, hw.sent, fun _ _ hp' => by simp at hp', ?_⟩
        intro id' _
        cases hs : w.sent with
        | nil =>
          have hlast := hw.silent hs
          omega
        | cons last rest =>
          have hhead : w.sent.head? = some last := by simp [hs]
          obtain ⟨hlast, hknown⟩ := hw.sent last hhead
          exact Or.inr (Or.inr ⟨last, by simp, hknown.same (by omega)⟩)
  | sending id snap =>
    dsimp only
    split
    · obtain ⟨hknown, hcur⟩ := hw.sending id snap hp
      refine ⟨?_, fun hs => by simp at hs, ?_, fun _ _ hp' => by simp at hp', ?_⟩
      · intro id' hid
        exact hw.slot id' (by simpa [Watch.sub, hp] using hid)
      · intro snap' hs
        obtain rfl : snap = snap' := by simpa using hs
        exact ⟨rfl, hknown⟩
      · intro id' hp'
        obtain rfl := WatchPhase.waiting.inj hp'
        rcases hcur with htok | hcont
        · exact Or.inl htok
        · exact Or.inr (Or.inr ⟨snap, rfl, hcont⟩)
    · exact hclosed _ rfl
  | waiting id =>
    dsimp only
    split
    · exact hclosed _ rfl
    · cases hr : h.receive id with
      | none => exact hw
      | some h' =>
        have hrec : h' = { h with subs := h.subs.insert id false } := by
          unfold Hub.receive at hr
          split at hr
          · exact (Option.some.inj hr).symm
          · cases hr
        subst hrec
        refine ⟨?_, hw.silent, hw.sent, fun _ _ hp' => by simp at hp', fun _ hp' => by simp at hp'⟩
        intro id' hid
        obtain rfl : id = id' := by simpa [Watch.sub] using hid
        have hold := (hw.slot id (by simp [Watch.sub, hp])).1
        exact ⟨hold, by simp⟩
  | closed =>
    dsimp only
    exact hw

theorem step_slots (h : Hub) (w : Watch) (alive : Bool) :
    (w.step h alive).2.engine = h.engine ∧ h.nextSub ≤ (w.step h alive).2.nextSub ∧
    (∀ id, id < h.nextSub → w.sub ≠ some id → (w.step h alive).2.subs[id]? = h.subs[id]?) ∧
    (∀ id, (w.step h alive).1.sub = some id → w.sub = some id ∨ id = h.nextSub ∧ (w.step h alive).2.nextSub = id + 1) := by
  unfold Watch.step
  cases hp : w.phase with
  | subscribing =>
    refine ⟨rfl, by simp [Hub.subscribe], ?_, ?_⟩
    · intro id hid _
      simp only [Hub.subscribe, Table.get_insert]
      split
      · omega
      · rfl
    · intro id hid
      obtain rfl : h.nextSub = id := by simpa [Watch.sub] using hid
      exact Or.inr ⟨rfl, rfl⟩
  | reading id =>
    dsimp only
    split
    · split
      · exact ⟨rfl, le_refl _, fun _ _ _ => rfl, fun _ hid => Or.inl (by simpa [Watch.sub, hp] using hid)⟩
      · exact ⟨rfl, le_refl _, fun _ _ _ => rfl, fun _ hid => Or.inl (by simpa [Watch.sub, hp] using hid)⟩
    · exact ⟨rfl, le_refl _, fun _ _ _ => rfl, fun _ hid => Or.inl (by simpa [Watch.sub, hp] using hid)⟩
  | sending id snap =>
    dsimp only
    split
    · exact ⟨rfl, le_refl _, fun _ _ _ => rfl, fun _ hid => Or.inl (by simpa [Watch.sub, hp] using hid)⟩
    · refine ⟨rfl, le_refl _, ?_, fun _ hid => by simp [Watch.sub] at hid⟩
      intro id' _ hne
      simp only [Watch.sub, hp, ne_eq, Option.some.injEq] at hne
      simp [Hub.cancel, Table.get_erase, hne]
  | waiting id =>
    dsimp only
    split
    · refine ⟨rfl, le_refl _, ?_, fun _ hid => by simp [Watch.sub] at hid⟩
      intro id' _ hne
      simp only [Watch.sub, hp, ne_eq, Option.some.injEq] at hne
      simp [Hub.cancel, Table.get_erase, hne]
    · unfold Hub.receive
      split
      · rename_i hr
        split at hr
        · cases hr
          refine ⟨rfl, le_refl _, ?_, fun _ hid => Or.inl (by simpa [Watch.sub, hp] using hid)⟩
          intro id' _ hne
          simp only [Watch.sub, hp, ne_eq, Option.some.injEq] at hne
          simp [Table.get_insert, hne]
        · cases hr
      · exact ⟨rfl, le_refl _, fun _ _ _ => rfl, fun _ hid => Or.inl hid⟩
  | closed =>
    dsimp only
    exact ⟨rfl, le_refl _, fun _ _ _ => rfl, fun _ hid => Or.inl hid⟩

structure ServerInv (s : Server) : Prop where
  versioned : Versioned s.hub.engine
  watches : ∀ w ∈ s.watches, WatchOk s.hub w
  distinct : ∀ (i j : ℕ) (w w' : Watch) (id : ℕ), s.watches[i]? = some w → s.watches[j]? = some w' →
    w.sub = some id → w'.sub = some id → i = j

theorem serverInv_start : ServerInv {} :=
  ⟨versioned_empty, by simp, fun i j w w' id h => by simp at h⟩

theorem watchDesired_fresh {p : Principal} {req : WatchDesiredRequest} {w : Watch}
    (h : watchDesired p req = .ok w) : w = { node := req.node } := by
  unfold watchDesired at h
  split at h
  · cases h
  · split at h
    · cases h
    · exact (Except.ok.inj h).symm

theorem serverInv_stream {s : Server} (hs : ServerInv s) (i : ℕ) (alive : Bool) :
    ServerInv (s.next (.stream i alive)) := by
  unfold Server.next
  dsimp only
  cases hi : s.watches[i]? with
  | none => exact hs
  | some w =>
    have hlt := (List.getElem?_eq_some_iff.mp hi).1
    have hw := hs.watches w (List.mem_of_getElem? hi)
    obtain ⟨heng, hnext, hother, hown⟩ := step_slots s.hub w alive
    refine ⟨by rw [heng]; exact hs.versioned, ?_, ?_⟩
    · intro w' hm
      obtain ⟨j, hj⟩ := List.getElem?_of_mem hm
      by_cases hij : i = j
      · subst hij
        rw [List.getElem?_set_self hlt] at hj
        cases hj
        exact watchOk_step hs.versioned hw alive
      · rw [List.getElem?_set_ne hij] at hj
        have hw' := hs.watches w' (List.mem_of_getElem? hj)
        refine watchOk_slots heng hnext ?_ hw'
        intro id hid
        refine hother id (hw'.slot id hid).1 ?_
        intro hsame
        exact hij (hs.distinct i j w w' id hi hj hsame hid)
    · -- A stream's step gives it its old slot or one nobody has.
      have hslot : ∀ j w' id, s.watches[j]? = some w' → w'.sub = some id → i ≠ j →
          (w.step s.hub alive).1.sub ≠ some id := by
        intro j w' id hj hid hij hself
        have hold := (hs.watches w' (List.mem_of_getElem? hj)).slot id hid
        rcases hown id hself with hsame | ⟨hfresh, -⟩
        · exact hij (hs.distinct i j w w' id hi hj hsame hid)
        · omega
      intro j k w₁ w₂ id hj hk h₁ h₂
      by_cases hij : i = j
      · by_cases hik : i = k
        · omega
        · subst hij
          rw [List.getElem?_set_self hlt] at hj
          rw [List.getElem?_set_ne hik] at hk
          cases hj
          exact absurd h₁ (hslot k w₂ id hk h₂ hik)
      · rw [List.getElem?_set_ne hij] at hj
        by_cases hik : i = k
        · subst hik
          rw [List.getElem?_set_self hlt] at hk
          cases hk
          exact absurd h₂ (hslot j w₁ id hj h₁ hij)
        · rw [List.getElem?_set_ne hik] at hk
          exact hs.distinct j k w₁ w₂ id hj hk h₁ h₂

theorem serverInv_next {s : Server} (hs : ServerInv s) (l : ServerStep) : ServerInv (s.next l) := by
  cases l with
  | pass built =>
    exact ⟨versioned_store built hs.versioned, fun w hw => watchOk_store built (hs.watches w hw), hs.distinct⟩
  | connect p req =>
    unfold Server.next
    dsimp only
    cases hc : watchDesired p req with
    | error e => exact hs
    | ok w =>
      have hw := watchDesired_fresh hc
      have hnone : w.sub = none := by simp [hw, Watch.sub]
      refine ⟨hs.versioned, ?_, ?_⟩
      · intro w' hm
        rcases List.mem_append.mp hm with hm | hm
        · exact hs.watches w' hm
        · rw [List.mem_singleton.mp hm, hw]
          exact ⟨fun id hid => by simp [Watch.sub] at hid, fun _ => rfl, fun snap h0 => by simp at h0,
            fun _ _ hp => by simp at hp, fun _ hp => by simp at hp⟩
      · intro i j w₁ w₂ id hi hj h₁ h₂
        have hlt : ∀ (i : ℕ) (w' : Watch), (s.watches ++ [w])[i]? = some w' → w'.sub = some id →
            s.watches[i]? = some w' := by
          intro i w' hi h'
          rcases Nat.lt_or_ge i s.watches.length with hl | hl
          · rwa [List.getElem?_append_left hl] at hi
          · rw [List.getElem?_append_right hl] at hi
            have hm := List.mem_singleton.mp (List.mem_of_getElem? hi)
            rw [hm, hnone] at h'
            cases h'
        exact hs.distinct i j w₁ w₂ id (hlt i w₁ hi h₁) (hlt j w₂ hj h₂) h₁ h₂
  | stream i alive => exact serverInv_stream hs i alive

theorem serverInv_run (ls : List ServerStep) : ServerInv (Server.run ls) := by
  unfold Server.run
  have key : ∀ (ls : List ServerStep) (s : Server), ServerInv s → ServerInv (ls.foldl Server.next s) := by
    intro ls
    induction ls with
    | nil => exact fun s hs => hs
    | cons l ls ih => exact fun s hs => ih _ (serverInv_next hs l)
  exact key ls _ serverInv_start

theorem run_append_server (ls ls' : List ServerStep) : Server.run (ls ++ ls') = ls'.foldl Server.next (Server.run ls) := by
  unfold Server.run
  rw [List.foldl_append]

theorem known_after {s : Server} {node : String} {snap : NodeSnapshot} (l : ServerStep)
    (h : Known s.hub.engine node snap) : Known (s.next l).hub.engine node snap := by
  cases l with
  | pass built => exact known_store built h
  | connect p req =>
    unfold Server.next
    dsimp only
    split <;> exact h
  | stream i alive =>
    unfold Server.next
    dsimp only
    split
    · rename_i w _
      rw [(step_slots s.hub w alive).1]
      exact h
    · exact h

theorem known_later (ls ls' : List ServerStep) {node : String} {snap : NodeSnapshot}
    (h : Known (Server.run ls).hub.engine node snap) : Known (Server.run (ls ++ ls')).hub.engine node snap := by
  rw [run_append_server]
  generalize Server.run ls = s at h
  induction ls' generalizing s with
  | nil => exact h
  | cons l ls' ih => exact ih _ (known_after l h)

/-- A stream that waits with an empty slot was last sent what the engine serves its node now. Within
one engine life a revision stands for one content, a pass raises it only for a node that changed or
appeared, and a node is dropped only after it was served as empty. -/
theorem watch_loses_nothing (ls : List ServerStep) :
    (∀ w ∈ (Server.run ls).watches, w.blocked (Server.run ls).hub → (Server.run ls).hub.engine.ready →
      ∃ snap cur, w.sent.head? = some snap ∧ (Server.run ls).hub.engine.snapshot w.node = some cur ∧
        snap.content = cur.content) ∧ (∀ ls' node a b, (Server.run ls).hub.engine.snapshot node = some a →
      (Server.run (ls ++ ls')).hub.engine.snapshot node = some b → a.revision = b.revision → a.content = b.content) ∧
    (∀ built node, ((Server.run ls).hub.engine.current node).revision <
        (((Server.run ls).hub.engine.store built).current node).revision →
      (Server.run ls).hub.engine.nodes[node]? = none ∨ (((Server.run ls).hub.engine.store built).current node).content ≠
        ((Server.run ls).hub.engine.current node).content) ∧
    (∀ built node, (Server.run ls).hub.engine.nodes[node]?.isSome →
      ((Server.run ls).hub.engine.store built).nodes[node]? = none →
      built[node]? = none ∧ ∃ cur, (Server.run ls).hub.engine.snapshot node = some cur ∧
        cur.content = NodeSnapshot.content {}) := by
  have hinv := serverInv_run ls
  refine ⟨?_, ?_, ?_, ?_⟩
  · intro w hm hblocked hready
    obtain ⟨id, hp, hempty⟩ := hblocked
    rcases (hinv.watches w hm).waiting id hp with htok | hnot | ⟨snap, hsent, hcont⟩
    · rw [hempty] at htok
      cases htok
    · rw [hready] at hnot
      cases hnot
    · exact ⟨snap, _, hsent, snapshot_ready hready w.node, hcont⟩
  · intro ls' node a b ha hb hrev
    obtain ⟨rfl, -⟩ := snapshot_current ha
    obtain ⟨rfl, -⟩ := snapshot_current hb
    exact (known_later ls ls' (known_current hinv.versioned node)).same hrev.symm
  · intro built node hlt
    rcases store_cases (Server.run ls).hub.engine built node with ⟨-, -, -, -, hnew⟩ | ⟨-, -, hrev, -⟩ | ⟨hnone, -, -⟩
    · exact hnew
    · omega
    · rw [store_current_none hnone] at hlt
      exact absurd hlt (Nat.not_lt_zero _)
  · intro built node htracked hgone
    obtain ⟨s, hs⟩ := Option.isSome_iff_exists.mp htracked
    rcases store_cases (Server.run ls).hub.engine built node with ⟨-, -, -, hsome, -⟩ | ⟨-, hsome, -, -⟩ | ⟨-, hout, hempty⟩
    · rw [hgone] at hsome
      cases hsome
    · rw [hgone] at hsome
      cases hsome
    · exact ⟨hout, _, snapshot_ready (hinv.versioned node s hs).1 node, hempty⟩

section Runs

def podOn (ip : String) : NodeSnapshot :=
  { instances := [{ metadata := { name := "web-1a2b" }, spec := { node := "a" }, status := some { phase := .ready, instanceIp := ip } }] }

/- The stream of node a reads an unready engine and waits, is kicked by the first pass, and two more
passes find its slot full or its loop about to send. -/
def watchSteps : List ServerStep :=
  [.connect (.node "a") { node := "a" }, .stream 0 true, .stream 0 true,
    .pass (mapOf [("a", podOn "10.44.128.2")]), .pass (mapOf [("a", podOn "10.44.128.3")]),
    .stream 0 true, .stream 0 true, .pass (mapOf [("a", podOn "10.44.128.4")]), .stream 0 true,
    .stream 0 true, .stream 0 true, .stream 0 true]

def watchQuiet (s : Server) : Bool :=
  match s.watches.head?.map Watch.phase with
  | some (.waiting id) => s.hub.subs[id]? = some false ∧ s.hub.engine.ready
  | _ => false

theorem watch_quiet : watchQuiet (Server.run watchSteps) := by
  decide +kernel

theorem watch_loses_nothing_kicked : ∃ w snap cur, w ∈ (Server.run watchSteps).watches ∧
    w.sent.head? = some snap ∧ (Server.run watchSteps).hub.engine.snapshot w.node = some cur ∧
    snap.content = cur.content := by
  have hq := watch_quiet
  unfold watchQuiet at hq
  split at hq
  · rename_i id hphase
    obtain ⟨hslot, hready⟩ := of_decide_eq_true hq
    obtain ⟨w, hw, hp⟩ := Option.map_eq_some_iff.mp hphase
    have hm := List.mem_of_mem_head? hw
    obtain ⟨snap, cur, h⟩ := (watch_loses_nothing watchSteps).1 w hm ⟨id, hp, hslot⟩ hready
    exact ⟨w, snap, cur, hm, h⟩
  · cases hq

end Runs

end Klite
