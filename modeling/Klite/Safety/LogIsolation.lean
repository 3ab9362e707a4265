import Klite.Server.CommandsSpec

/-!
# Log output isolation

The check of a pushed message and its delivery are two lock sections.
-/

namespace Klite
open Lib

/-- Not certified as another node. -/
def Permits (caller : Principal) (node : String) : Prop := ∀ n, caller = .node n → n = node

/-- Where a message for a waiter of the node may come from. -/
def Fits (node : String) : Source → Prop
  | .push caller => Permits caller node
  | .detach n => n = node

namespace CommandServer

/-- A `Logs` call for the node has this id. -/
def Owns (s : CommandServer) (id node : String) : Prop := ∃ l lc, s.logs l = some lc ∧ lc.id = id ∧ lc.node = node

/-- Whoever waits under the id may hear from the caller. -/
def Cleared (s : CommandServer) (caller : Principal) (id : String) : Prop :=
  id ∈ s.received ∧ ∀ w lc, s.waiters[id]? = some w → s.logs w = some lc → Permits caller lc.node

/-- The route of a detach goes to the stream's own node. -/
def StreamClean (s : CommandServer) (node : String) : StreamPhase → Prop
  | .routing (.looking out) _ => s.Owns out.commandId node
  | .routing (.blocked _ w) _ => ∃ lc, s.logs w = some lc ∧ lc.node = node
  | _ => True

structure CallClean (s : CommandServer) (sc : StreamCall) : Prop where
  queue : ∀ cmd ∈ sc.ch, cmd.isLogs → s.Owns cmd.id sc.node
  phase : s.StreamClean sc.node sc.phase

/-- The route of a push goes to a waiter that may hear from the caller. -/
def RouteClean (s : CommandServer) (caller : Principal) : PushPhase → Prop
  | .checking out => out.commandId ∈ s.received
  | .routing (.looking out) _ => s.Cleared caller out.commandId
  | .routing (.blocked _ w) _ => ∃ lc, s.logs w = some lc ∧ Permits caller lc.node
  | _ => True

structure PushClean (s : CommandServer) (pc : PushCall) : Prop where
  id : pc.id ≠ "" → s.Cleared pc.caller pc.id
  phase : s.RouteClean pc.caller pc.phase

structure Clean (s : CommandServer) : Prop where
  drawn : ∀ l lc, s.logs l = some lc → lc.id ∈ s.drawn
  ids : ∀ l l' lc lc', s.logs l = some lc → s.logs l' = some lc' → lc.id = lc'.id → l = l'
  waiters : ∀ (id : String) (w : ℕ), s.waiters[id]? = some w → ∃ lc, s.logs w = some lc ∧ lc.id = id
  streams : ∀ (node : String) (c : ℕ), s.streams[node]? = some c → ∃ sc, s.calls c = some sc ∧ sc.node = node
  calls : ∀ c sc, s.calls c = some sc → s.CallClean sc
  pushes : ∀ p pc, s.pushes p = some pc → s.PushClean pc
  got : ∀ l lc, s.logs l = some lc → ∀ d ∈ lc.got, Fits lc.node d.source

/-! ### Writing a record -/

variable {s' : CommandServer} {caller : Principal} {sc : StreamCall} {pc : PushCall} {c : ℕ} {l : ℕ}
variable {id node : String} {lc : LogsCall}

section Writes
variable {s : CommandServer}

/-- The `Logs` calls stay, and no id that was received is registered. -/
structure Grows (s s' : CommandServer) : Prop where
  logs : ∀ l lc, s.logs l = some lc → ∃ lc', s'.logs l = some lc' ∧ lc'.id = lc.id ∧ lc'.node = lc.node
  received : s.received ⊆ s'.received
  waiters : ∀ (id : String) (w : ℕ), id ∈ s.received → s'.waiters[id]? = some w → s.waiters[id]? = some w

theorem owns_grows (hg : Grows s s') (h : s.Owns id node) : s'.Owns id node := by
  obtain ⟨l, lc, hl, hid, hn⟩ := h
  obtain ⟨lc', hl', hid', hn'⟩ := hg.logs l lc hl
  exact ⟨l, lc', hl', hid'.trans hid, hn'.trans hn⟩

theorem cleared_grows (hs : Clean s) (hg : Grows s s') (h : s.Cleared caller id) : s'.Cleared caller id := by
  refine ⟨hg.received h.1, ?_⟩
  intro w lc' hw hl'
  have hw' := hg.waiters id w h.1 hw
  obtain ⟨lc, hl, -⟩ := hs.waiters id w hw'
  obtain ⟨lc'', hl'', -, hn⟩ := hg.logs w lc hl
  obtain rfl := Option.mem_unique hl' hl''
  rw [hn]
  exact h.2 w lc hw' hl

theorem streamClean_grows (hg : Grows s s') {ph : StreamPhase} (h : s.StreamClean node ph) :
    s'.StreamClean node ph := by
  unfold StreamClean at h ⊢
  split
  · exact owns_grows hg h
  · obtain ⟨lc, hl, hn⟩ := h
    obtain ⟨lc', hl', -, hn'⟩ := hg.logs _ lc hl
    exact ⟨lc', hl', hn'.trans hn⟩
  · trivial

theorem callClean_grows (hg : Grows s s') (h : s.CallClean sc) : s'.CallClean sc :=
  ⟨fun cmd hm hlogs => owns_grows hg (h.queue cmd hm hlogs), streamClean_grows hg h.phase⟩

theorem routeClean_grows (hs : Clean s) (hg : Grows s s') {ph : PushPhase} (h : s.RouteClean caller ph) :
    s'.RouteClean caller ph := by
  unfold RouteClean at h ⊢
  split
  · exact hg.received h
  · exact cleared_grows hs hg h
  · obtain ⟨lc, hl, hn⟩ := h
    obtain ⟨lc', hl', -, hn'⟩ := hg.logs _ lc hl
    exact ⟨lc', hl', by rw [hn']; exact hn⟩
  · trivial

theorem pushClean_grows (hs : Clean s) (hg : Grows s s') (h : s.PushClean pc) : s'.PushClean pc :=
  ⟨fun hid => cleared_grows hs hg (h.id hid), routeClean_grows hs hg h.phase⟩

theorem grows_same (hl : s'.logs = s.logs) (hr : s'.received = s.received) (hw : s'.waiters = s.waiters) :
    Grows s s' where
  logs l lc h := ⟨lc, by rw [hl]; exact h, rfl, rfl⟩
  received := by rw [hr]; exact List.Subset.refl _
  waiters id w _ h := by rw [← hw]; exact h

theorem clean_setCall (hs : Clean s) (hnode : ∀ sc₀, s.calls c = some sc₀ → sc₀.node = sc.node) (h : s.CallClean sc) :
    Clean (s.setCall c sc) := by
  have hg : Grows s (s.setCall c sc) := grows_same rfl rfl rfl
  constructor
  · exact hs.drawn
  · exact hs.ids
  · exact hs.waiters
  · intro node c' hc'
    obtain ⟨sc', hsc', hn⟩ := hs.streams node c' hc'
    rw [calls_setCall]
    split
    · rename_i he
      subst he
      exact ⟨sc, rfl, (hnode sc' hsc').symm.trans hn⟩
    · exact ⟨sc', hsc', hn⟩
  · intro c' sc' hc'
    rcases calls_written hc' with ⟨-, rfl⟩ | hold
    · exact callClean_grows hg h
    · exact callClean_grows hg (hs.calls c' sc' hold)
  · intro p pc hp
    exact pushClean_grows hs hg (hs.pushes p pc hp)
  · exact hs.got

theorem clean_setPush (hs : Clean s) (p : ℕ) (h : s.PushClean pc) : Clean (s.setPush p pc) := by
  have hg : Grows s (s.setPush p pc) := grows_same rfl rfl rfl
  constructor
  · exact hs.drawn
  · exact hs.ids
  · exact hs.waiters
  · exact hs.streams
  · intro c sc hc
    exact callClean_grows hg (hs.calls c sc hc)
  · intro p' pc' hp'
    rcases pushes_written hp' with ⟨-, rfl⟩ | hold
    · exact pushClean_grows hs hg h
    · exact pushClean_grows hs hg (hs.pushes p' pc' hold)
  · exact hs.got

theorem grows_setLogs {lc₀ : LogsCall} (hl : s.logs l = some lc₀) (hid : lc.id = lc₀.id) (hnode : lc.node = lc₀.node) :
    Grows s (s.setLogs l lc) where
  logs l' lc' hl' := by
    rw [logs_setLogs]
    split
    · rename_i he
      subst he
      obtain rfl := Option.mem_unique hl hl'
      exact ⟨lc, rfl, hid, hnode⟩
    · exact ⟨lc', hl', rfl, rfl⟩
  received := List.Subset.refl _
  waiters _ _ _ h := h

theorem clean_written (hs : Clean s) {l : ℕ} {lc : LogsCall} {ds : List String}
    (hg : Grows s { s.setLogs l lc with drawn := ds })
    (hdrawn : ∀ l' lc', (s.setLogs l lc).logs l' = some lc' → lc'.id ∈ ds)
    (hids : ∀ l₁ l₂ lc₁ lc₂, (s.setLogs l lc).logs l₁ = some lc₁ → (s.setLogs l lc).logs l₂ = some lc₂ →
      lc₁.id = lc₂.id → l₁ = l₂)
    (hgot : ∀ d ∈ lc.got, Fits lc.node d.source) : Clean { s.setLogs l lc with drawn := ds } where
  drawn := hdrawn
  ids := hids
  waiters id w hw := by
    obtain ⟨lc₁, h₁, he⟩ := hs.waiters id w hw
    obtain ⟨lc₂, h₂, he₂, -⟩ := hg.logs w lc₁ h₁
    exact ⟨lc₂, h₂, he₂.trans he⟩
  streams := hs.streams
  calls c sc hc := callClean_grows hg (hs.calls c sc hc)
  pushes p pc hp := pushClean_grows hs hg (hs.pushes p pc hp)
  got l' lc' hl' := by
    rcases logs_written hl' with ⟨-, rfl⟩ | hold
    · exact hgot
    · exact hs.got l' lc' hold

theorem clean_setLogs (hs : Clean s) {lc₀ : LogsCall} (hl : s.logs l = some lc₀) (hid : lc.id = lc₀.id)
    (hnode : lc.node = lc₀.node) (hgot : ∀ d ∈ lc.got, Fits lc.node d.source) : Clean (s.setLogs l lc) := by
  have hg := grows_setLogs hl hid hnode
  -- Every record of the new state has the id of one of the old state under the same number.
  have hback : ∀ l' lc', (s.setLogs l lc).logs l' = some lc' → ∃ lc₁, s.logs l' = some lc₁ ∧ lc₁.id = lc'.id := by
    intro l' lc' hl'
    rcases logs_written hl' with ⟨rfl, rfl⟩ | hold
    · exact ⟨lc₀, hl, hid.symm⟩
    · exact ⟨lc', hold, rfl⟩
  refine clean_written hs hg ?_ ?_ hgot
  · intro l' lc' hl'
    obtain ⟨lc₁, h₁, he⟩ := hback l' lc' hl'
    rw [← he]
    exact hs.drawn l' lc₁ h₁
  · intro l₁ l₂ lc₁ lc₂ h₁ h₂ he
    obtain ⟨lc₁', h₁', he₁⟩ := hback l₁ lc₁ h₁
    obtain ⟨lc₂', h₂', he₂⟩ := hback l₂ lc₂ h₂
    exact hs.ids l₁ l₂ lc₁' lc₂' h₁' h₂' (by rw [he₁, he₂, he])

theorem clean_put (hs : Clean s) {w : ℕ} (hw : s.logs w = some lc) {d : Delivery} (hfits : Fits lc.node d.source) :
    Clean (s.setLogs w { lc with ch := lc.ch ++ [d], got := lc.got ++ [d] }) := by
  refine clean_setLogs hs hw rfl rfl ?_
  intro d' hd'
  rcases List.mem_append.mp hd' with hold | hnew
  · exact hs.got w lc hw d' hold
  · obtain rfl := List.mem_singleton.mp hnew
    exact hfits

end Writes

/-! ### The maps -/

section Maps
variable {s : CommandServer} (hs : Clean s)
include hs

theorem clean_maps (hcalls : s'.calls = s.calls) (hlogs : s'.logs = s.logs) (hpushes : s'.pushes = s.pushes)
    (hdrawn : s'.drawn = s.drawn) (hreceived : s.received ⊆ s'.received)
    (hwaiters : ∀ (id : String) (w : ℕ), s'.waiters[id]? = some w →
      s.waiters[id]? = some w ∨ id ∉ s.received ∧ ∃ lc, s.logs w = some lc ∧ lc.id = id)
    (hstreams : ∀ (node : String) (c : ℕ), s'.streams[node]? = some c →
      s.streams[node]? = some c ∨ ∃ sc, s.calls c = some sc ∧ sc.node = node) :
    Clean s' := by
  have hg : Grows s s' := by
    refine ⟨fun l lc h => ⟨lc, by rw [hlogs]; exact h, rfl, rfl⟩, hreceived, ?_⟩
    intro id w hid hw
    exact (hwaiters id w hw).resolve_right fun h => h.1 hid
  constructor
  · rw [hlogs, hdrawn]
    exact hs.drawn
  · rw [hlogs]
    exact hs.ids
  · intro id w hw
    rw [hlogs]
    rcases hwaiters id w hw with h | h
    · exact hs.waiters id w h
    · exact h.2
  · intro node c hc
    rw [hcalls]
    rcases hstreams node c hc with h | h
    · exact hs.streams node c h
    · exact h
  · intro c sc hc
    rw [hcalls] at hc
    exact callClean_grows hg (hs.calls c sc hc)
  · intro p pc hp
    rw [hpushes] at hp
    exact pushClean_grows hs hg (hs.pushes p pc hp)
  · rw [hlogs]
    exact hs.got

theorem clean_waiters {tbl : Std.ExtTreeMap String ℕ}
    (h : ∀ (id : String) (w : ℕ), tbl[id]? = some w → s.waiters[id]? = some w ∨
      id ∉ s.received ∧ ∃ lc, s.logs w = some lc ∧ lc.id = id) : Clean { s with waiters := tbl } :=
  clean_maps hs rfl rfl rfl rfl (List.Subset.refl _) h fun _ _ hc => Or.inl hc

theorem clean_streams {tbl : Std.ExtTreeMap String ℕ}
    (h : ∀ (node : String) (c : ℕ), tbl[node]? = some c → s.streams[node]? = some c ∨
      ∃ sc, s.calls c = some sc ∧ sc.node = node) : Clean { s with streams := tbl } :=
  clean_maps hs rfl rfl rfl rfl (List.Subset.refl _) (fun _ _ hw => Or.inl hw) h

theorem clean_received (id : String) : Clean { s with received := id :: s.received } :=
  clean_maps hs rfl rfl rfl rfl (List.subset_cons_self _ _) (fun _ _ hw => Or.inl hw) fun _ _ hc => Or.inl hc

theorem clean_send (node : String) (cmd : Command) (hcmd : cmd.isLogs → s.Owns cmd.id node) : Clean (s.send node cmd).2 := by
  cases h : s.send node cmd with
  | mk queued s' =>
    cases queued with
    | none =>
      rw [send_none s h]
      exact hs
    | some c =>
      obtain ⟨sc, hst, hc, rfl⟩ := send_some s h
      obtain ⟨sc', hc', hn⟩ := hs.streams node c hst
      obtain rfl := Option.mem_unique hc hc'
      have hold := hs.calls c sc hc
      refine clean_setCall hs ?_ ⟨?_, hold.phase⟩
      · intro sc₀ h₀
        obtain rfl := Option.mem_unique hc h₀
        rfl
      · intro cmd' hm hlogs
        rcases List.mem_append.mp hm with hm | hm
        · exact hold.queue cmd' hm hlogs
        · obtain rfl := List.mem_singleton.mp hm
          show s.Owns cmd'.id sc.node
          rw [hn]
          exact hcmd hlogs

end Maps

/-! ### One step -/

section Steps
variable {s : CommandServer} (hs : Clean s)
include hs

theorem clean_newLogs {req : LogsRequest} (hl : s.logs l = none) (hid : id ∉ s.drawn) :
    Clean { s.setLogs l { id := id, node := node, req := req } with drawn := id :: s.drawn } := by
  have hne : ∀ l' lc', s.logs l' = some lc' → l' ≠ l := by
    rintro l' lc' hl' rfl
    rw [hl] at hl'
    cases hl'
  have hg : Grows s { s.setLogs l { id := id, node := node, req := req } with drawn := id :: s.drawn } := by
    refine ⟨?_, List.Subset.refl _, fun _ _ _ h => h⟩
    intro l' lc' hl'
    refine ⟨lc', ?_, rfl, rfl⟩
    show (s.setLogs l _).logs l' = some lc'
    rw [logs_setLogs, if_neg (hne l' lc' hl')]
    exact hl'
  refine clean_written hs hg ?_ ?_ fun d hd => nomatch hd
  · intro l' lc' hl'
    rcases logs_written hl' with ⟨-, rfl⟩ | hold
    · exact List.mem_cons_self
    · exact List.mem_cons_of_mem _ (hs.drawn l' lc' hold)
  · intro l₁ l₂ lc₁ lc₂ h₁ h₂ he
    rcases logs_written h₁ with ⟨rfl, rfl⟩ | h₁' <;> rcases logs_written h₂ with ⟨rfl, rfl⟩ | h₂'
    · rfl
    · exact absurd (hs.drawn l₂ lc₂ h₂') (by rw [← he]; exact hid)
    · exact absurd (hs.drawn l₁ lc₁ h₁') (by rw [he]; exact hid)
    · exact hs.ids l₁ l₂ lc₁ lc₂ h₁' h₂' he

theorem clean_stream (c : ℕ) (caller : Principal) (node : String) : Clean (s.stream c caller node) := by
  unfold stream
  split
  · exact hs
  · rename_i hc
    have hfree : ∀ sc₀, s.calls c ≠ some sc₀ := by
      intro sc₀ h
      rw [h] at hc
      exact hc rfl
    have hnew : ∀ ph, (∀ r res, ph ≠ .routing r res) → Clean (s.setCall c { node := node, phase := ph }) := by
      intro ph hph
      refine clean_setCall hs (fun sc₀ h => absurd h (hfree sc₀)) ⟨fun cmd hm => absurd hm List.not_mem_nil, ?_⟩
      cases ph with
      | routing r res => exact absurd rfl (hph r res)
      | _ => trivial
    split
    · exact hnew _ (by simp)
    · split
      · exact hnew _ (by simp)
      · refine clean_streams (hnew _ (by simp)) ?_
        intro node' c' hc'
        rw [Table.get_insert] at hc'
        split at hc'
        · rename_i he
          cases hc'
          exact Or.inr ⟨_, by rw [calls_setCall, if_pos rfl], he⟩
        · exact Or.inl hc'

theorem clean_stream_write {sc sc' : StreamCall} (hc : s.calls c = some sc) (hn : sc'.node = sc.node)
    (hch : sc'.ch ⊆ sc.ch) (hph : s.StreamClean sc.node sc'.phase) : Clean (s.setCall c sc') := by
  have hold := hs.calls c sc hc
  refine clean_setCall hs ?_ ⟨?_, by rw [hn]; exact hph⟩
  · intro sc₀ h₀
    obtain rfl := Option.mem_unique hc h₀
    exact hn.symm
  · intro cmd hm hlogs
    rw [hn]
    exact hold.queue cmd (hch hm) hlogs

theorem clean_closeReplaced (old : Option ℕ) : Clean (s.closeReplaced old) := by
  unfold closeReplaced
  split
  · exact hs
  · split
    · exact hs
    · rename_i so hso
      exact clean_stream_write hs hso rfl (List.Subset.refl _) (hs.calls _ so hso).phase

theorem clean_nextStream (hc : s.calls c = some sc) (st : HubStep) : Clean (s.nextStream c sc st) := by
  have hold := hs.calls c sc hc
  have hphase := hold.phase
  have hmove : ∀ {ph}, s.StreamClean sc.node ph → Clean (s.setCall c { sc with phase := ph }) :=
    fun hph => clean_stream_write hs hc rfl (List.Subset.refl _) hph
  unfold nextStream
  split
  · split
    · rename_i old _
      obtain ⟨r, hc'⟩ := closeReplaced_calls old hc
      exact clean_stream_write (clean_closeReplaced hs old) hc' rfl (List.Subset.refl _) trivial
    · exact hs
  · split
    · exact hmove trivial
    · exact hs
  · split
    · exact hmove trivial
    · exact hs
  · split
    · rename_i cmd rest _ hch
      exact clean_stream_write hs hc rfl (by rw [hch]; exact List.subset_cons_self _ _) trivial
    · exact hs
  · split
    · exact clean_stream_write hs hc rfl (List.Subset.refl _) trivial
    · exact hmove trivial
    · exact hs
  · split
    · rename_i res _
      have hwrite : Clean (s.setCall c { sc with phase := .draining res }) :=
        hmove trivial
      refine clean_streams hwrite ?_
      intro node c' hc'
      refine Or.inl ?_
      split at hc'
      · exact (Table.get_of_erase hc').2
      · exact hc'
    · exact hs
  · split
    · exact hmove trivial
    · rename_i cmd rest hph hch
      have hrest : rest ⊆ sc.ch := by
        rw [hch]
        exact List.subset_cons_self _ _
      split
      · rename_i hlogs
        exact clean_stream_write hs hc rfl hrest (hold.queue cmd (by rw [hch]; exact List.mem_cons_self) hlogs)
      · exact clean_stream_write hs hc rfl hrest hphase
    · exact hs
  · split
    · rename_i out res hph
      rw [hph] at hphase
      split
      · rename_i w hw
        obtain ⟨l, lc, hl, hid, hn⟩ := hphase
        obtain ⟨lc', hl', hid'⟩ := hs.waiters _ w hw
        obtain rfl := hs.ids _ _ _ _ hl hl' (hid.trans hid'.symm)
        exact hmove ⟨lc, hl, hn⟩
      · exact hmove trivial
    · rename_i out w res hph
      rw [hph] at hphase
      split
      · rename_i s' hput
        obtain ⟨lc, hl, rfl⟩ := put_some s hput
        obtain ⟨lc', hl', hn⟩ := hphase
        obtain rfl := Option.mem_unique hl hl'
        have hput' := clean_put hs hl (d := ⟨out, .detach sc.node⟩) hn.symm
        exact clean_stream_write hput' hc rfl (List.Subset.refl _) trivial
      · exact hs
    · exact hs
  · split
    · split
      · exact hmove trivial
      · exact hs
    · exact hs
  · exact hs

theorem clean_nextLogs (hl : s.logs l = some lc) {st : HubStep} (hst : st.logsNo = some l)
    (hunsent : st = .addWaiter l → lc.id ∉ s.received) : Clean (s.nextLogs l lc st) := by
  have hgot := hs.got l lc hl
  unfold nextLogs
  split
  · cases hst
    split
    · have hwrite : Clean (s.setLogs _ { lc with phase := .registered }) := clean_setLogs hs hl rfl rfl hgot
      refine clean_waiters hwrite ?_
      intro id w hw
      rw [Table.get_insert] at hw
      split at hw
      · rename_i he
        cases hw
        refine Or.inr ⟨?_, { lc with phase := .registered }, by rw [logs_setLogs, if_pos rfl], he⟩
        rw [← he]
        exact hunsent rfl
      · exact Or.inl hw
    · exact hs
  · split
    · have hown : s.Owns lc.id lc.node := ⟨l, lc, hl, rfl, rfl⟩
      have hsent := clean_send hs lc.node ⟨lc.id, .logs lc.req.inst lc.req.follow lc.req.tail⟩ fun _ => hown
      split
      · rename_i c s' hsend
        rw [hsend] at hsent
        obtain ⟨sc, -, -, rfl⟩ := send_some s hsend
        exact clean_setLogs hsent hl rfl rfl hgot
      · rename_i s' hsend
        obtain rfl := send_none s hsend
        exact clean_setLogs hs hl rfl rfl hgot
    · exact hs
  · split
    · split
      · exact clean_setLogs hs hl rfl rfl hgot
      · exact clean_setLogs hs hl rfl rfl hgot
    · exact hs
  · split
    · exact clean_setLogs hs hl rfl rfl hgot
    · exact hs
  · split
    · have hsent := clean_send hs lc.node ⟨lc.id, .stop lc.id⟩ nofun
      have hl' : (s.send lc.node ⟨lc.id, .stop lc.id⟩).2.logs l = some lc := by
        rw [send_logs]
        exact hl
      exact clean_setLogs hsent hl' rfl rfl hgot
    · exact hs
  · split
    · rename_i res _
      have hwrite : Clean (s.setLogs l { lc with phase := .closing res }) := clean_setLogs hs hl rfl rfl hgot
      refine clean_waiters hwrite ?_
      intro id w hw
      exact Or.inl (Table.get_of_erase hw).2
    · exact hs
  · split
    · exact clean_setLogs hs hl rfl rfl hgot
    · exact hs
  · exact hs

omit hs in
theorem cleared_of_check (hr : id ∈ s.received) (h : s.foreign caller id = none) : s.Cleared caller id := by
  refine ⟨hr, ?_⟩
  rintro w lc hw hl n rfl
  unfold foreign waiterNode at h
  rw [hw, Option.bind_some, hl] at h
  dsimp only [Option.map_some] at h
  split at h
  · cases h
  · rename_i hne
    exact (not_not.mp hne).symm

theorem clean_nextPush {p : ℕ} (hp : s.pushes p = some pc) (st : HubStep) : Clean (s.nextPush p pc st) := by
  have hold := hs.pushes p pc hp
  have hphase := hold.phase
  have hquiet : ∀ ph, (∀ out, ph ≠ .checking out) → (∀ r last, ph ≠ .routing r last) →
      Clean (s.setPush p { pc with phase := ph }) := by
    intro ph hcheck hroute
    refine clean_setPush hs p ⟨hold.id, ?_⟩
    cases ph with
    | checking out => exact absurd rfl (hcheck out)
    | routing r last => exact absurd rfl (hroute r last)
    | _ => trivial
  unfold nextPush
  split
  · split
    · rename_i out _ _
      have hr := clean_received hs out.commandId
      have hg : Grows s { s with received := out.commandId :: s.received } :=
        ⟨fun l lc h => ⟨lc, h, rfl, rfl⟩, List.subset_cons_self _ _, fun _ _ _ h => h⟩
      exact clean_setPush hr p ⟨fun hid => cleared_grows hs hg (hold.id hid), List.mem_cons_self⟩
    · exact hs
  · split
    · split
      · rename_i hid
        exact clean_setPush hs p ⟨hold.id, hold.id hid.1⟩
      · exact hquiet _ (by simp) (by simp)
    · exact hs
  · split
    · rename_i out hph
      rw [hph] at hphase
      split
      · exact hquiet _ (by simp) (by simp)
      · rename_i hforeign
        have hcleared := cleared_of_check hphase hforeign
        exact clean_setPush hs p ⟨fun _ => hcleared, hcleared⟩
    · exact hs
  · split
    · rename_i out last hph
      rw [hph] at hphase
      split
      · rename_i w hw
        obtain ⟨lc, hl, -⟩ := hs.waiters _ w hw
        exact clean_setPush hs p ⟨hold.id, lc, hl, hphase.2 w lc hw hl⟩
      · exact hquiet _ (by simp) (by simp)
    · rename_i out w last hph
      rw [hph] at hphase
      split
      · rename_i s' hput
        obtain ⟨lc, hl, rfl⟩ := put_some s hput
        obtain ⟨lc', hl', hperm⟩ := hphase
        obtain rfl := Option.mem_unique hl hl'
        have hg : Grows s (s.setLogs w { lc with
            ch := lc.ch ++ [⟨out, .push pc.caller⟩], got := lc.got ++ [⟨out, .push pc.caller⟩] }) :=
          grows_setLogs hl rfl rfl
        have hput' := clean_put hs hl (d := ⟨out, .push pc.caller⟩) hperm
        refine clean_setPush hput' p ⟨fun hid => cleared_grows hs hg (hold.id hid), ?_⟩
        cases last <;> trivial
      · exact hs
    · exact hs
  · split
    · split
      · exact hquiet _ (by simp) (by simp)
      · exact hs
    · exact hs
  · split
    · exact hquiet _ (by simp) (by simp)
    · exact hs
  · exact hs

end Steps

/-- No id is registered that a push stream has already brought in. -/
def Unsent (s : CommandServer) : HubStep → Prop
  | .addWaiter l => ∀ lc, s.logs l = some lc → lc.id ∉ s.received
  | _ => True

theorem clean_next {s : CommandServer} (hs : Clean s) (st : HubStep) (hu : s.Unsent st) : Clean (s.next st) := by
  have hdoes := next_does s st
  generalize s.next st = s' at hdoes ⊢
  cases hdoes with
  | nothing => exact hs
  | stream c caller node => exact clean_stream hs c caller node
  | logs l id node req hl hid => exact clean_newLogs hs hl hid
  | push p caller hp => exact clean_setPush hs p ⟨fun h => absurd rfl h, trivial⟩
  | ofStream c sc _ hc _ => exact clean_nextStream hs hc st
  | ofLogs l lc _ hl hst =>
    refine clean_nextLogs hs hl hst ?_
    rintro rfl
    exact hu lc hl
  | ofPush p pc _ hp _ => exact clean_nextPush hs hp st

theorem clean_start : Clean {} where
  drawn _ _ h := by cases h
  ids _ _ _ _ h := by cases h
  waiters id w h := by simp at h
  streams node c h := by simp at h
  calls _ _ h := by cases h
  pushes _ _ h := by cases h
  got _ _ h := by cases h

theorem clean_run {sts : List HubStep} (h : Each next Unsent {} sts) : Clean (runs next {} sts) := by
  have hstep : ∀ s st, Clean s → Unsent s st → Clean (next s st) := fun _ st hs hu => clean_next hs st hu
  exact runs_invariant hstep clean_start h

end CommandServer

/-- In every interleaving in which no id is registered that a push stream brought in before, all that
was ever put in the channel of a waiter comes from a push stream whose caller is not certified as
another node, or from the detach of a stream of the waiter's node. -/
theorem log_output_isolated {sts : List HubStep} (h : Each CommandServer.next CommandServer.Unsent {} sts) (l : ℕ)
    (lc : LogsCall) (hl : (runs CommandServer.next {} sts).logs l = some lc) :
    ∀ d ∈ lc.got, match d.source with
      | .push caller => ∀ n, caller = .node n → n = lc.node
      | .detach node => node = lc.node := by
  intro d hd
  have hfits := (CommandServer.clean_run h).got l lc hl d hd
  unfold Fits at hfits
  split
  · rename_i caller hsource
    rw [hsource] at hfits
    exact hfits
  · rename_i node hsource
    rw [hsource] at hfits
    exact hfits

def followRequest : LogsRequest := ⟨"web-1a2b", true, 0⟩

/-- A log request for an instance on node a whose command has reached the agent. -/
def sentRun : List HubStep :=
  [.stream 0 (.node "a") "a", .closeOld 0, .logs 0 "id-1" "a" followRequest, .addWaiter 0, .sendLogs 0, .dequeue 0,
    .streamSend 0 none]

/-- Nodes a and b both push output for the command, and the stream of a breaks. -/
def pushedRun : List HubStep := sentRun ++
  [.push 0 (.node "a"), .push 1 (.node "b"), .recv 0 ⟨"id-1", "one", false⟩, .recv 1 ⟨"id-1", "two", true⟩, .check 1,
    .check 0, .pushRoute 0, .pushRoute 0, .pushRoute 1, .recvErr 0 .eof, .pushRoute 0, .pushRoute 0]

theorem log_output_isolated_pushed :
    ∃ lc, (runs CommandServer.next {} pushedRun).logs 0 = some lc ∧
      lc.got.map (·.out.data) = ["one", "log stream from agent broke: EOF\n"] ∧
      ∀ d ∈ lc.got, match d.source with
        | .push caller => ∀ n, caller = .node n → n = lc.node
        | .detach node => node = lc.node := by
  have hunsent : Each CommandServer.next CommandServer.Unsent {} pushedRun := by
    refine ⟨trivial, trivial, trivial, ?_, trivial, trivial, trivial, trivial, trivial, trivial, trivial, trivial,
      trivial, trivial, trivial, trivial, trivial, trivial, trivial, trivial⟩
    nofun
  exact ⟨_, rfl, rfl, log_output_isolated hunsent 0 _ rfl⟩

end Klite
