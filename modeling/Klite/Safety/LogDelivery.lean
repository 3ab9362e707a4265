import Klite.Server.CommandsSpec

/-!
# No log request is left waiting

The command of a log request is in the queue of its stream, in the hand of the loop that
dequeued it, sent, or on its way back as the end of the output.
-/

namespace Klite
open Lib

/-- The command of the log request. -/
def IsFor (id : String) (cmd : Command) : Prop := cmd.id = id ∧ cmd.isLogs

/-- The end of the log request's output. -/
def Ends (id : String) (out : CommandOutput) : Prop := out.commandId = id ∧ out.eof

namespace StreamPhase

/-- The call has the command in hand or is on the way to end the request. -/
def Holding (l : ℕ) (id : String) : StreamPhase → Prop
  | .sending cmd => IsFor id cmd
  | .routing (.looking out) _ => Ends id out
  | .routing (.blocked out w) _ => Ends id out ∧ w = l
  | _ => False

/-- Before the lock section of `detach`. -/
def Live : StreamPhase → Prop
  | .attached _ | .serving | .sending _ | .leaving _ => True
  | _ => False

end StreamPhase

variable {sc : StreamCall}

namespace StreamCall

def Held (sc : StreamCall) (l : ℕ) (id : String) : Prop := (∃ cmd ∈ sc.ch, IsFor id cmd) ∨ sc.phase.Holding l id

def Sent (sc : StreamCall) (id : String) : Prop := ∃ cmd ∈ sc.sent, IsFor id cmd

def Returned (sc : StreamCall) : Prop := ∃ res, sc.phase = .returned res

theorem not_returned (h : ∀ res, sc.phase ≠ .returned res) : sc.Returned → sc.ch = [] := by
  rintro ⟨res, hph⟩
  exact absurd hph (h res)

end StreamCall

open StreamCall (not_returned)

/-- After the lock section of `removeWaiter`. -/
def LogsPhase.Removed : LogsPhase → Prop
  | .closing _ | .returned _ => True
  | _ => False

def LogsCall.Ended (lc : LogsCall) : Prop := ∃ d ∈ lc.got, Ends lc.id d.out

namespace CommandServer

/-- The command is somewhere, or the request has its answer. -/
def Placed (s : CommandServer) (l : ℕ) (lc : LogsCall) (c : ℕ) : Prop :=
  ∃ sc, s.calls c = some sc ∧ (sc.Held l lc.id ∨ sc.Sent lc.id ∨ lc.Ended)

structure Accounted (s : CommandServer) : Prop where
  streams : ∀ (node : String) (c : ℕ), s.streams[node]? = some c → ∃ sc, s.calls c = some sc ∧ sc.node = node ∧ sc.phase.Live
  drained : ∀ c sc, s.calls c = some sc → sc.Returned → sc.ch = []
  removed : ∀ l lc, s.logs l = some lc → lc.phase.Removed → s.waiters[lc.id]? ≠ some l
  gone : ∀ l lc, s.logs l = some lc → lc.gone → lc.phase.Removed
  unsent : ∀ l lc, s.logs l = some lc → lc.phase = .started → lc.queuedOn = none
  placed : ∀ l lc c, s.logs l = some lc → s.waiters[lc.id]? = some l → lc.queuedOn = some c → s.Placed l lc c

/-- `stream.Send` does not fail for the command of a request that is still registered. -/
def Forwards (s : CommandServer) : HubStep → Prop
  | .streamSend c (some _) => ∀ sc cmd, s.calls c = some sc → sc.phase = .sending cmd → cmd.isLogs → s.waiters[cmd.id]? = none
  | _ => True

variable {c : ℕ} {l : ℕ} {w : ℕ}

section Writes
variable {s : CommandServer} (hs : Accounted s)
include hs

theorem accounted_setCall {sc sc' : StreamCall} (hc : s.calls c = some sc) (hnode : sc'.node = sc.node)
    (hlive : (∃ node : String, s.streams[node]? = some c) → sc'.phase.Live) (hdrained : sc'.Returned → sc'.ch = [])
    (hsent : sc.sent ⊆ sc'.sent)
    (hheld : ∀ l lc, s.logs l = some lc → s.waiters[lc.id]? = some l → sc.Held l lc.id → sc'.Held l lc.id ∨ sc'.Sent lc.id ∨ lc.Ended) :
    Accounted (s.setCall c sc') where
  streams node c' hc' := by
    obtain ⟨sc₁, h₁, hn, hl⟩ := hs.streams node c' hc'
    rw [calls_setCall]
    split
    · rename_i he
      subst he
      obtain rfl := Option.mem_unique hc h₁
      exact ⟨sc', rfl, hnode.trans hn, hlive ⟨node, hc'⟩⟩
    · exact ⟨sc₁, h₁, hn, hl⟩
  drained c' sc₁ h₁ := by
    rcases calls_written h₁ with ⟨-, rfl⟩ | hold
    · exact hdrained
    · exact hs.drained c' sc₁ hold
  removed := hs.removed
  gone := hs.gone
  unsent := hs.unsent
  placed l lc c' hl hw hq := by
    obtain ⟨sc₁, h₁, hp⟩ := hs.placed l lc c' hl hw hq
    unfold Placed
    rw [calls_setCall]
    split
    · rename_i he
      subst he
      obtain rfl := Option.mem_unique hc h₁
      refine ⟨sc', rfl, ?_⟩
      rcases hp with hheld' | ⟨cmd, hm, hfor⟩ | hended
      · exact hheld l lc hl hw hheld'
      · exact Or.inr (Or.inl ⟨cmd, hsent hm, hfor⟩)
      · exact Or.inr (Or.inr hended)
    · exact ⟨sc₁, h₁, hp⟩

theorem accounted_setLogs {lc lc' : LogsCall} (hl : s.logs l = some lc) (hid : lc'.id = lc.id)
    (hremoved : lc'.phase.Removed → s.waiters[lc.id]? ≠ some l) (hgone : lc'.gone → lc'.phase.Removed)
    (hunsent : lc'.phase = .started → lc'.queuedOn = none)
    (hplaced : ∀ c, s.waiters[lc.id]? = some l → lc'.queuedOn = some c → s.Placed l lc' c) :
    Accounted (s.setLogs l lc') where
  streams := hs.streams
  drained := hs.drained
  removed l₁ lc₁ h₁ := by
    rcases logs_written h₁ with ⟨rfl, rfl⟩ | hold
    · rw [hid]
      exact hremoved
    · exact hs.removed l₁ lc₁ hold
  gone l₁ lc₁ h₁ := by
    rcases logs_written h₁ with ⟨-, rfl⟩ | hold
    · exact hgone
    · exact hs.gone l₁ lc₁ hold
  unsent l₁ lc₁ h₁ := by
    rcases logs_written h₁ with ⟨-, rfl⟩ | hold
    · exact hunsent
    · exact hs.unsent l₁ lc₁ hold
  placed l₁ lc₁ c h₁ hw hq := by
    rcases logs_written h₁ with ⟨rfl, rfl⟩ | hold
    · exact hplaced c (by rw [← hid]; exact hw) hq
    · exact hs.placed l₁ lc₁ c hold hw hq

theorem accounted_setPush (p : ℕ) (pc : PushCall) : Accounted (s.setPush p pc) :=
  ⟨hs.streams, hs.drained, hs.removed, hs.gone, hs.unsent, hs.placed⟩

theorem accounted_logs_write {lc lc' : LogsCall} (hl : s.logs l = some lc) (hid : lc'.id = lc.id)
    (hq : lc'.queuedOn = lc.queuedOn) (hgot : lc.got ⊆ lc'.got) (hgone : lc'.gone = lc.gone)
    (hremoved : lc'.phase.Removed ↔ lc.phase.Removed) (hstarted : lc'.phase = .started → lc.phase = .started) :
    Accounted (s.setLogs l lc') := by
  refine accounted_setLogs hs hl hid ?_ ?_ ?_ ?_
  · rw [hremoved]
    exact hs.removed l lc hl
  · rw [hgone, hremoved]
    exact hs.gone l lc hl
  · intro hst
    rw [hq]
    exact hs.unsent l lc hl (hstarted hst)
  · intro c hw hqc
    rw [hq] at hqc
    obtain ⟨sc, hc, hp⟩ := hs.placed l lc c hl hw hqc
    refine ⟨sc, hc, ?_⟩
    rw [hid]
    rcases hp with hheld | hsent | ⟨d, hd, hends⟩
    · exact Or.inl hheld
    · exact Or.inr (Or.inl hsent)
    · exact Or.inr (Or.inr ⟨d, hgot hd, by rw [hid]; exact hends⟩)

theorem accounted_put {lc : LogsCall} (hw : s.logs w = some lc) (d : Delivery) :
    Accounted (s.setLogs w { lc with ch := lc.ch ++ [d], got := lc.got ++ [d] }) :=
  accounted_logs_write hs hw rfl rfl (List.subset_append_left _ _) rfl Iff.rfl id

end Writes

/-! ### One step -/

section Steps
variable {s : CommandServer} (hs : Accounted s)
include hs

theorem accounted_stream_write {sc sc' : StreamCall} (hc : s.calls c = some sc) (hnode : sc'.node = sc.node)
    (hch : sc'.ch = sc.ch) (hsent : sc'.sent = sc.sent)
    (hlive : (∃ node : String, s.streams[node]? = some c) → sc'.phase.Live)
    (hreturned : ∀ res, sc'.phase ≠ .returned res)
    (hholding : ∀ l lc, s.logs l = some lc → s.waiters[lc.id]? = some l → sc.phase.Holding l lc.id →
      sc'.Held l lc.id ∨ sc'.Sent lc.id ∨ lc.Ended) :
    Accounted (s.setCall c sc') := by
  refine accounted_setCall hs hc hnode hlive (not_returned hreturned) (by rw [hsent]; exact List.Subset.refl _) ?_
  rintro l lc hl hw (⟨cmd, hm, hfor⟩ | hh)
  · exact Or.inl (Or.inl ⟨cmd, by rw [hch]; exact hm, hfor⟩)
  · exact hholding l lc hl hw hh

theorem accounted_idle (hc : s.calls c = some sc) (hph : sc.phase = .serving) (ph : StreamPhase) (hlive : ph.Live)
    (hreturned : ∀ res, ph ≠ .returned res) : Accounted (s.setCall c { sc with phase := ph }) := by
  refine accounted_stream_write hs hc rfl rfl rfl (fun _ => hlive) hreturned ?_
  intro l lc _ _ hh
  rw [hph] at hh
  exact hh.elim

theorem live_of_streams (hc : s.calls c = some sc) (h : ∃ node : String, s.streams[node]? = some c) : sc.phase.Live := by
  obtain ⟨node, hnode⟩ := h
  obtain ⟨sc', hc', -, hlive⟩ := hs.streams node c hnode
  obtain rfl := Option.mem_unique hc hc'
  exact hlive

theorem accounted_closeReplaced (old : Option ℕ) : Accounted (s.closeReplaced old) := by
  unfold closeReplaced
  split
  · exact hs
  · split
    · exact hs
    · rename_i so hso
      have hlive : (∃ node : String, s.streams[node]? = some _) → so.phase.Live := live_of_streams hs hso
      refine accounted_setCall hs hso rfl hlive (hs.drained _ so hso) (List.Subset.refl _) ?_
      intro l lc _ _ h
      exact Or.inl h

variable {res : CallResult}

theorem accounted_forget (hc : s.calls c = some sc) (hph : sc.phase = .leaving res) :
    Accounted { s.setCall c { sc with phase := .draining res } with
      streams := if s.streams[sc.node]? = some c then s.streams.erase sc.node else s.streams } := by
  generalize htbl : (if s.streams[sc.node]? = some c then s.streams.erase sc.node else s.streams) = tbl
  have hsub : ∀ (node : String) (c' : ℕ), tbl[node]? = some c' → s.streams[node]? = some c' ∧ c' ≠ c := by
    intro node c' hc'
    rw [← htbl] at hc'
    have hfree : s.streams[node]? = some c → sc.node = node := by
      intro hst
      obtain ⟨sc', h', hn, -⟩ := hs.streams node c hst
      obtain rfl := Option.mem_unique hc h'
      exact hn
    split at hc'
    · obtain ⟨hne, hst⟩ := Table.get_of_erase hc'
      refine ⟨hst, ?_⟩
      rintro rfl
      exact hne (hfree hst)
    · rename_i hother
      refine ⟨hc', ?_⟩
      rintro rfl
      rw [hfree hc'] at hother
      exact hother hc'
  have hfewer : Accounted { s with streams := tbl } :=
    ⟨fun node c' hc' => hs.streams node c' (hsub node c' hc').1, hs.drained, hs.removed, hs.gone, hs.unsent, hs.placed⟩
  have hgone : ¬ ∃ node : String, ({ s with streams := tbl } : CommandServer).streams[node]? = some c := by
    rintro ⟨node, hst⟩
    exact (hsub node c hst).2 rfl
  refine accounted_stream_write (s := { s with streams := tbl }) hfewer hc rfl rfl rfl (fun h => absurd h hgone) (by simp) ?_
  intro l lc _ _ hh
  rw [hph] at hh
  exact hh.elim

theorem accounted_drain {sc sc' : StreamCall} (hc : s.calls c = some sc) (hnode : sc'.node = sc.node)
    (hdead : ¬ sc.phase.Live) (hsent : sc'.sent = sc.sent) (hdrained : sc'.Returned → sc'.ch = [])
    (hheld : ∀ l id, sc.Held l id → sc'.Held l id) : Accounted (s.setCall c sc') := by
  refine accounted_setCall hs hc hnode (fun h => absurd (live_of_streams hs hc h) hdead) hdrained
    (by rw [hsent]; exact List.Subset.refl _) ?_
  intro l lc _ _ h
  exact Or.inl (hheld l lc.id h)

section Loop
variable {c : ℕ} {sc : StreamCall} (hc : s.calls c = some sc)
include hc

variable {cmd : Command} {rest : List Command}

theorem accounted_dequeue (hph : sc.phase = .serving) (hch : sc.ch = cmd :: rest) :
    Accounted (s.setCall c { sc with ch := rest, phase := .sending cmd }) := by
  refine accounted_setCall hs hc rfl (fun _ => trivial) (not_returned (by simp)) (List.Subset.refl _) ?_
  rintro l lc _ _ (⟨cmd', hm, hfor⟩ | hh)
  · rw [hch] at hm
    rcases List.mem_cons.mp hm with rfl | hm
    · exact Or.inl (Or.inr hfor)
    · exact Or.inl (Or.inl ⟨cmd', hm, hfor⟩)
  · rw [hph] at hh
    exact hh.elim

theorem accounted_sent (hph : sc.phase = .sending cmd) :
    Accounted (s.setCall c { sc with phase := .serving, sent := sc.sent ++ [cmd] }) := by
  refine accounted_setCall hs hc rfl (fun _ => trivial) (not_returned (by simp)) (List.subset_append_left _ _) ?_
  rintro l lc _ _ (hqueued | hh)
  · exact Or.inl (Or.inl hqueued)
  · rw [hph] at hh
    exact Or.inr (Or.inl ⟨cmd, List.mem_append_right _ (List.mem_singleton.mpr rfl), hh⟩)

theorem accounted_unsent (hph : sc.phase = .sending cmd) (hnone : cmd.isLogs → s.waiters[cmd.id]? = none)
    (res : CallResult) : Accounted (s.setCall c { sc with phase := .leaving res }) := by
  refine accounted_stream_write hs hc rfl rfl rfl (fun _ => trivial) (by simp) ?_
  intro l lc _ hw hh
  rw [hph] at hh
  have hfree := hnone hh.2
  rw [hh.1, hw] at hfree
  cases hfree

theorem accounted_drained (hph : sc.phase = .draining res) (hch : sc.ch = []) :
    Accounted (s.setCall c { sc with phase := .returned res }) := by
  refine accounted_drain hs hc rfl (by rw [hph]; exact id) rfl (fun _ => hch) ?_
  rintro l id (⟨cmd, hm, -⟩ | hh)
  · rw [hch] at hm
    cases hm
  · rw [hph] at hh
    exact hh.elim

theorem accounted_drainLogs (hph : sc.phase = .draining res) (hch : sc.ch = cmd :: rest) :
    Accounted (s.setCall c { sc with ch := rest, phase := .routing (.looking (disconnected cmd)) res }) := by
  refine accounted_drain hs hc rfl (by rw [hph]; exact id) rfl (not_returned (by simp)) ?_
  rintro l id (⟨cmd', hm, hfor⟩ | hh)
  · rw [hch] at hm
    rcases List.mem_cons.mp hm with rfl | hm
    · exact Or.inr ⟨hfor.1, rfl⟩
    · exact Or.inl ⟨cmd', hm, hfor⟩
  · rw [hph] at hh
    exact hh.elim

theorem accounted_drainStop (hph : sc.phase = .draining res) (hch : sc.ch = cmd :: rest) (hstop : ¬ cmd.isLogs) :
    Accounted (s.setCall c { sc with ch := rest }) := by
  refine accounted_drain hs hc rfl (by rw [hph]; exact id) rfl (not_returned (by simp [hph])) ?_
  rintro l id (⟨cmd', hm, hfor⟩ | hh)
  · rw [hch] at hm
    rcases List.mem_cons.mp hm with rfl | hm
    · exact absurd hfor.2 hstop
    · exact Or.inl ⟨cmd', hm, hfor⟩
  · exact Or.inr hh

theorem accounted_route_write {r : Route} (hph : sc.phase = .routing r res) (ph : StreamPhase)
    (hreturned : ∀ res, ph ≠ .returned res)
    (hholding : ∀ l lc, s.logs l = some lc → s.waiters[lc.id]? = some l → StreamPhase.Holding l lc.id (.routing r res) →
      ph.Holding l lc.id ∨ lc.Ended) :
    Accounted (s.setCall c { sc with phase := ph }) := by
  have hdead : ¬ sc.phase.Live := by rw [hph]; exact id
  refine accounted_stream_write hs hc rfl rfl rfl (fun h => absurd (live_of_streams hs hc h) hdead) hreturned ?_
  intro l lc hl hw hh
  rw [hph] at hh
  rcases hholding l lc hl hw hh with h | h
  · exact Or.inl (Or.inr h)
  · exact Or.inr (Or.inr h)

variable {out : CommandOutput}

theorem accounted_look (hph : sc.phase = .routing (.looking out) res) (hwaiter : s.waiters[out.commandId]? = some w) :
    Accounted (s.setCall c { sc with phase := .routing (.blocked out w) res }) := by
  refine accounted_route_write hs hc hph _ (by simp) ?_
  intro l lc _ hw hh
  rw [hh.1, hw] at hwaiter
  exact Or.inl ⟨hh, (Option.some.inj hwaiter).symm⟩

theorem accounted_unfound (hph : sc.phase = .routing (.looking out) res) (hnone : s.waiters[out.commandId]? = none) :
    Accounted (s.setCall c { sc with phase := .draining res }) := by
  refine accounted_route_write hs hc hph _ (by simp) ?_
  intro l lc _ hw hh
  rw [hh.1, hw] at hnone
  cases hnone

theorem accounted_enter (hph : sc.phase = .routing (.blocked out w) res) {s' : CommandServer}
    (hput : s.put w ⟨out, .detach sc.node⟩ = some s') :
    Accounted (s'.setCall c { sc with phase := .draining res }) := by
  obtain ⟨lc₀, hl₀, rfl⟩ := put_some s hput
  refine accounted_route_write (accounted_put hs hl₀ _) hc hph _ (by simp) ?_
  rintro l lc hl - ⟨hends, rfl⟩
  rw [logs_setLogs, if_pos rfl] at hl
  cases hl
  exact Or.inr ⟨_, List.mem_append_right _ (List.mem_singleton.mpr rfl), hends⟩

theorem accounted_routeGone (hph : sc.phase = .routing (.blocked out w) res) (hany : (s.logs w).any (·.gone)) :
    Accounted (s.setCall c { sc with phase := .draining res }) := by
  refine accounted_route_write hs hc hph _ (by simp) ?_
  rintro l lc hl hw ⟨-, rfl⟩
  rw [hl] at hany
  exact absurd hw (hs.removed w lc hl (hs.gone w lc hl hany))

end Loop

theorem accounted_closeOld (hc : s.calls c = some sc) {old : Option ℕ} (hph : sc.phase = .attached old) :
    Accounted ((s.closeReplaced old).setCall c { sc with phase := .serving }) := by
  obtain ⟨r, hc'⟩ := closeReplaced_calls old hc
  refine accounted_stream_write (accounted_closeReplaced hs old) hc' rfl rfl rfl (fun _ => trivial) (by simp) ?_
  intro l lc _ _ hh
  rw [hph] at hh
  exact hh.elim

theorem accounted_nextStream (hc : s.calls c = some sc) {st : HubStep} (hst : st.streamNo = some c)
    (hforwards : s.Forwards st) : Accounted (s.nextStream c sc st) := by
  unfold nextStream
  split
  · split
    · rename_i old hph
      exact accounted_closeOld hs hc hph
    · exact hs
  · split
    · rename_i st' _ hph
      exact accounted_idle hs hc hph (.leaving (.error st')) trivial (by simp)
    · exact hs
  · split
    · rename_i hph _
      exact accounted_idle hs hc hph (.leaving (.error takenOver)) trivial (by simp)
    · exact hs
  · split
    · rename_i cmd rest hph hch
      exact accounted_dequeue hs hc hph hch
    · exact hs
  · split
    · rename_i cmd hph
      exact accounted_sent hs hc hph
    · rename_i cmd st' hph
      cases hst
      exact accounted_unsent hs hc hph (hforwards sc cmd hc hph) _
    · exact hs
  · split
    · rename_i res hph
      exact accounted_forget hs hc hph
    · exact hs
  · split
    · rename_i res hph hch
      exact accounted_drained hs hc hph hch
    · rename_i res cmd rest hph hch
      split
      · exact accounted_drainLogs hs hc hph hch
      · rename_i hstop
        exact accounted_drainStop hs hc hph hch hstop
    · exact hs
  · split
    · rename_i out res hph
      split
      · rename_i w hwaiter
        exact accounted_look hs hc hph hwaiter
      · rename_i hnone
        exact accounted_unfound hs hc hph hnone
    · rename_i out w res hph
      split
      · rename_i s' hput
        exact accounted_enter hs hc hph hput
      · exact hs
    · exact hs
  · split
    · rename_i out w res hph
      split
      · rename_i hany
        exact accounted_routeGone hs hc hph hany
      · exact hs
    · exact hs
  · exact hs

theorem accounted_stream (c : ℕ) (caller : Principal) (node : String) : Accounted (s.stream c caller node) := by
  unfold stream
  split
  · exact hs
  · rename_i hc
    have hfree : s.calls c = none := Option.not_isSome_iff_eq_none.mp hc
    have hother : ∀ c' sc', s.calls c' = some sc' → c' ≠ c := by
      rintro c' sc' h rfl
      rw [hfree] at h
      cases h
    -- The new call has an empty queue and is no one's stream yet.
    have hnew : ∀ ph, Accounted (s.setCall c { node := node, phase := ph }) := by
      intro ph
      constructor
      · intro node' c' hc'
        obtain ⟨sc', h', hn, hl⟩ := hs.streams node' c' hc'
        exact ⟨sc', by rw [calls_setCall, if_neg (hother c' sc' h')]; exact h', hn, hl⟩
      · intro c' sc' h' hret
        rcases calls_written h' with ⟨-, rfl⟩ | hold
        · rfl
        · exact hs.drained c' sc' hold hret
      · exact hs.removed
      · exact hs.gone
      · exact hs.unsent
      · intro l lc c' hl hw hq
        obtain ⟨sc', h', hp⟩ := hs.placed l lc c' hl hw hq
        exact ⟨sc', by rw [calls_setCall, if_neg (hother c' sc' h')]; exact h', hp⟩
    split
    · exact hnew _
    · split
      · exact hnew _
      · have hnow := hnew (.attached s.streams[node]?)
        refine ⟨?_, hnow.drained, hnow.removed, hnow.gone, hnow.unsent, hnow.placed⟩
        intro node' c' hc'
        change (s.streams.insert node c)[node']? = some c' at hc'
        rw [Table.get_insert] at hc'
        split at hc'
        · rename_i he
          cases hc'
          exact ⟨_, calls_setCall _ _ _ _ |>.trans (if_pos rfl), he, trivial⟩
        · exact hnow.streams node' c' hc'

theorem accounted_send (node : String) (cmd : Command) : Accounted (s.send node cmd).2 := by
  cases h : s.send node cmd with
  | mk queued s' =>
    cases queued with
    | none =>
      rw [send_none s h]
      exact hs
    | some c =>
      obtain ⟨sc, hst, hc, rfl⟩ := send_some s h
      have hlive : (∃ node : String, s.streams[node]? = some c) → sc.phase.Live := live_of_streams hs hc
      have hbusy := hlive ⟨node, hst⟩
      refine accounted_setCall hs hc rfl hlive ?_ (List.Subset.refl _) ?_
      · rintro ⟨res, hret⟩
        change sc.phase = .returned res at hret
        rw [hret] at hbusy
        exact hbusy.elim
      · rintro l lc _ _ (⟨cmd', hm, hfor⟩ | hh)
        · exact Or.inl (Or.inl ⟨cmd', List.mem_append_left _ hm, hfor⟩)
        · exact Or.inl (Or.inr hh)

theorem accounted_waiters {tbl : Std.ExtTreeMap String ℕ} (h : ∀ l lc, s.logs l = some lc → tbl[lc.id]? = some l →
      s.waiters[lc.id]? = some l ∨ ¬ lc.phase.Removed ∧ lc.queuedOn = none) : Accounted { s with waiters := tbl } := by
  refine ⟨hs.streams, hs.drained, ?_, hs.gone, hs.unsent, ?_⟩
  · intro l lc hl hrem hw
    rcases h l lc hl hw with hold | hnew
    · exact hs.removed l lc hl hrem hold
    · exact hnew.1 hrem
  · intro l lc c hl hw hq
    rcases h l lc hl hw with hold | hnew
    · exact hs.placed l lc c hl hold hq
    · rw [hnew.2] at hq
      cases hq

theorem accounted_nextLogs {lc : LogsCall} (hl : s.logs l = some lc) {st : HubStep} (hst : st.logsNo = some l) :
    Accounted (s.nextLogs l lc st) := by
  unfold nextLogs
  split
  · cases hst
    split
    · rename_i hph
      have hwrite : Accounted (s.setLogs _ { lc with phase := .registered }) :=
        accounted_logs_write hs hl rfl rfl (List.Subset.refl _) rfl
          (by rw [hph]; exact Iff.rfl) nofun
      refine accounted_waiters hwrite ?_
      intro l' lc' hl' hw
      rw [Table.get_insert] at hw
      split at hw
      · cases hw
        rw [logs_setLogs, if_pos rfl] at hl'
        cases hl'
        exact Or.inr ⟨id, hs.unsent _ lc hl hph⟩
      · exact Or.inl hw
    · exact hs
  · split
    · rename_i hph
      split
      · rename_i c s' hsend
        have hsent := accounted_send hs lc.node ⟨lc.id, .logs lc.req.inst lc.req.follow lc.req.tail⟩
        rw [hsend] at hsent
        obtain ⟨sc, -, hc, rfl⟩ := send_some s hsend
        refine accounted_setLogs hsent hl rfl (fun h => h.elim) ?_ nofun ?_
        · intro hgone
          have hrem := hs.gone l lc hl hgone
          rw [hph] at hrem
          exact hrem.elim
        · intro c' _ hq
          cases hq
          refine ⟨_, calls_setCall _ _ _ _ |>.trans (if_pos rfl), Or.inl (Or.inl ?_)⟩
          exact ⟨_, List.mem_append_right _ (List.mem_singleton.mpr rfl), rfl, rfl⟩
      · rename_i s' hsend
        obtain rfl := send_none s hsend
        exact accounted_logs_write hs hl rfl rfl (List.Subset.refl _) rfl
          (by rw [hph]; exact Iff.rfl) nofun
    · exact hs
  · split
    · rename_i d rest hph _
      split
      · exact accounted_logs_write hs hl rfl rfl (List.Subset.refl _) rfl
          (by rw [hph]; exact Iff.rfl) nofun
      · refine accounted_logs_write hs hl rfl rfl (List.Subset.refl _) rfl ?_ ?_
        · rw [hph]
          cases d.out.eof <;> exact Iff.rfl
        · intro h
          dsimp only at h
          split at h <;> cases h
    · exact hs
  · split
    · rename_i hph
      exact accounted_logs_write hs hl rfl rfl (List.Subset.refl _) rfl
        (by rw [hph]; exact Iff.rfl) nofun
    · exact hs
  · split
    · rename_i hph
      have hsent := accounted_send hs lc.node ⟨lc.id, .stop lc.id⟩
      have hl' : (s.send lc.node ⟨lc.id, .stop lc.id⟩).2.logs l = some lc := by
        rw [send_logs]
        exact hl
      exact accounted_logs_write hsent hl' rfl rfl (List.Subset.refl _) rfl
        (by rw [hph]; exact Iff.rfl) nofun
    · exact hs
  · split
    · rename_i res hph
      have hfewer : Accounted { s with waiters := s.waiters.erase lc.id } := by
        refine accounted_waiters hs ?_
        intro l' lc' _ hw
        exact Or.inl (Table.get_of_erase hw).2
      have herased : (s.waiters.erase lc.id)[lc.id]? ≠ some l := by
        rw [Table.get_erase, if_pos rfl]
        simp
      refine accounted_setLogs hfewer hl rfl (fun _ => herased) (fun _ => trivial) nofun ?_
      intro c hw _
      exact absurd hw herased
    · exact hs
  · split
    · rename_i res hph
      have hrem : lc.phase.Removed := by
        rw [hph]
        trivial
      have hfree := hs.removed l lc hl hrem
      refine accounted_setLogs hs hl rfl (fun _ => hfree) (fun _ => trivial) nofun ?_
      intro c hw _
      exact absurd hw hfree
    · exact hs
  · exact hs

theorem accounted_nextPush (p : ℕ) (pc : PushCall) (st : HubStep) : Accounted (s.nextPush p pc st) := by
  unfold nextPush
  split
  · split
    · exact ⟨hs.streams, hs.drained, hs.removed, hs.gone, hs.unsent, hs.placed⟩
    · exact hs
  · split
    · split <;> exact accounted_setPush hs _ _
    · exact hs
  · split
    · split <;> exact accounted_setPush hs _ _
    · exact hs
  · split
    · split <;> exact accounted_setPush hs _ _
    · split
      · rename_i s' hput
        obtain ⟨lc, hl, rfl⟩ := put_some s hput
        exact accounted_setPush (accounted_put hs hl _) _ _
      · exact hs
    · exact hs
  · split
    · split
      · exact accounted_setPush hs _ _
      · exact hs
    · exact hs
  · split
    · exact accounted_setPush hs _ _
    · exact hs
  · exact hs

theorem accounted_newLogs (l : ℕ) (id node : String) (req : LogsRequest) :
    Accounted { s.setLogs l { id := id, node := node, req := req } with drawn := id :: s.drawn } := by
  refine ⟨hs.streams, hs.drained, ?_, ?_, ?_, ?_⟩
  · intro l' lc' hl'
    rcases logs_written hl' with ⟨-, rfl⟩ | hold
    · exact fun h => h.elim
    · exact hs.removed l' lc' hold
  · intro l' lc' hl'
    rcases logs_written hl' with ⟨-, rfl⟩ | hold
    · nofun
    · exact hs.gone l' lc' hold
  · intro l' lc' hl'
    rcases logs_written hl' with ⟨-, rfl⟩ | hold
    · exact fun _ => rfl
    · exact hs.unsent l' lc' hold
  · intro l' lc' c hl' hw hq
    rcases logs_written hl' with ⟨-, rfl⟩ | hold
    · cases hq
    · exact hs.placed l' lc' c hold hw hq

theorem accounted_next (st : HubStep) (hforwards : s.Forwards st) : Accounted (s.next st) := by
  have hdoes := next_does s st
  generalize s.next st = s' at hdoes ⊢
  cases hdoes with
  | nothing => exact hs
  | stream c caller node => exact accounted_stream hs c caller node
  | logs l id node req _ _ => exact accounted_newLogs hs l id node req
  | push p caller _ => exact accounted_setPush hs p _
  | ofStream c sc _ hc hst => exact accounted_nextStream hs hc hst hforwards
  | ofLogs l lc _ hl hst => exact accounted_nextLogs hs hl hst
  | ofPush p pc _ _ _ => exact accounted_nextPush hs p pc st

end Steps

theorem accounted_start : Accounted {} where
  streams node c h := by simp at h
  drained _ _ h := by cases h
  removed _ _ h := by cases h
  gone _ _ h := by cases h
  unsent _ _ h := by cases h
  placed _ _ _ h := by cases h

theorem accounted_run {sts : List HubStep} (h : Each next Forwards {} sts) : Accounted (runs next {} sts) := by
  have hstep : ∀ s st, Accounted s → Forwards s st → Accounted (next s st) := fun _ st hs hf => accounted_next hs st hf
  exact runs_invariant hstep accounted_start h

/-- A message that ends the request's output is about to enter its channel. -/
def Entering (s : CommandServer) (l : ℕ) (id : String) : Prop :=
  (∃ c sc out res, s.calls c = some sc ∧ sc.phase = .routing (.blocked out l) res ∧ Ends id out) ∨
    ∃ p pc out last, s.pushes p = some pc ∧ pc.phase = .routing (.blocked out l) last ∧ Ends id out

/-- A registered request whose command was queued on a stream call that has returned: the command was
sent, or its output has been ended or is about to be. -/
def Answers (s : CommandServer) : Prop :=
  ∀ l lc c sc, s.logs l = some lc → s.waiters[lc.id]? = some l → lc.queuedOn = some c → s.calls c = some sc →
    sc.Returned → sc.Sent lc.id ∨ lc.Ended ∨ s.Entering l lc.id

end CommandServer

/-- In every interleaving in which `stream.Send` does not fail for the command of a registered request,
no registered request is left without an answer by a stream call that has returned. -/
theorem log_request_answered {sts : List HubStep} (h : Each CommandServer.next CommandServer.Forwards {} sts) :
    (runs CommandServer.next {} sts).Answers := by
  intro l lc c sc hl hw hq hc hret
  have hs := CommandServer.accounted_run h
  obtain ⟨sc', hc', hp⟩ := hs.placed l lc c hl hw hq
  obtain rfl := Option.mem_unique hc hc'
  have hdrained := hs.drained c sc hc hret
  obtain ⟨res, hph⟩ := hret
  rcases hp with (⟨cmd, hm, -⟩ | hh) | hsent | hended
  · rw [hdrained] at hm
    cases hm
  · rw [hph] at hh
    exact hh.elim
  · exact Or.inl hsent
  · exact Or.inr (Or.inl hended)

def tailRequest : LogsRequest := ⟨"web-1a2b", false, 10⟩

/-- A log request whose command the stream of its node has dequeued. -/
def dequeuedRun : List HubStep :=
  [.stream 0 (.node "a") "a", .closeOld 0, .logs 0 "id-1" "a" tailRequest, .addWaiter 0, .sendLogs 0, .dequeue 0]

def lostRun : List HubStep := dequeuedRun ++
  [.streamSend 0 (some ⟨.unavailable, "transport is closing"⟩), .forget 0, .drain 0]

/-- The agent goes away between the dequeue and the send. The detach finds an empty queue, and no one
ends the request. -/
theorem log_request_lost : ¬ (runs CommandServer.next {} lostRun).Answers := by
  intro h
  have hone : ∀ c sc, (runs CommandServer.next {} lostRun).calls c = some sc → c = 0 := by
    intro c sc hc
    cases c with
    | zero => rfl
    | succ n => cases hc
  rcases h 0 _ 0 _ rfl (by decide +kernel) rfl rfl ⟨_, rfl⟩ with ⟨cmd, hm, -⟩ | ⟨d, hd, -⟩ | hentering
  · cases hm
  · cases hd
  · rcases hentering with ⟨c, sc, out, res, hc, hph, -⟩ | ⟨p, pc, out, last, hp, -⟩
    · obtain rfl := hone c sc hc
      cases hc
      cases hph
    · cases hp

def answeredRun : List HubStep :=
  [.stream 0 (.node "a") "a", .closeOld 0, .logs 0 "id-1" "a" tailRequest, .addWaiter 0, .sendLogs 0,
    .streamDone 0 ⟨.canceled, "context canceled"⟩, .forget 0, .drain 0, .route 0, .route 0, .drain 0]

/-- The agent goes away before the dequeue, and the detach ends the request. -/
theorem log_request_answered_detached : (runs CommandServer.next {} answeredRun).Answers ∧
      ((runs CommandServer.next {} answeredRun).logs 0).map (fun lc => lc.got.map (·.out.eof)) = some [true] := by
  refine ⟨log_request_answered ?_, rfl⟩
  exact ⟨trivial, trivial, trivial, trivial, trivial, trivial, trivial, trivial, trivial, trivial, trivial, trivial⟩

end Klite
