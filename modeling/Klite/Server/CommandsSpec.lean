import Klite.Lib.Runs
import Klite.Server.Commands

/-!
# What one step of the command hub can do

A step writes the records of the calls it is about and the two maps. The records are
written by `setCall`, `setLogs` and `setPush`, so an invariant that survives these, given
what it asks of the new record, survives a step.
-/

namespace Klite
open Lib

namespace CommandServer
variable (s : CommandServer)

theorem update_some {α : Type} {f : ℕ → Option α} {i j : ℕ} {a b : α} (h : Function.update f i (some a) j = some b) :
    j = i ∧ b = a ∨ f j = some b := by
  rw [Function.update_apply] at h
  split at h
  · rename_i he
    exact Or.inl ⟨he, (Option.some.inj h).symm⟩
  · exact Or.inr h

theorem calls_setCall (c : ℕ) (sc : StreamCall) (c' : ℕ) :
    (s.setCall c sc).calls c' = if c' = c then some sc else s.calls c' := Function.update_apply _ _ _ _

theorem logs_setLogs (l : ℕ) (lc : LogsCall) (l' : ℕ) :
    (s.setLogs l lc).logs l' = if l' = l then some lc else s.logs l' := Function.update_apply _ _ _ _

variable {s} in
theorem calls_written {c c' : ℕ} {sc sc' : StreamCall} (h : (s.setCall c sc).calls c' = some sc') :
    c' = c ∧ sc' = sc ∨ s.calls c' = some sc' := update_some h

variable {s} in
theorem logs_written {l l' : ℕ} {lc lc' : LogsCall} (h : (s.setLogs l lc).logs l' = some lc') :
    l' = l ∧ lc' = lc ∨ s.logs l' = some lc' := update_some h

variable {s} in
theorem pushes_written {p p' : ℕ} {pc pc' : PushCall} (h : (s.setPush p pc).pushes p' = some pc') :
    p' = p ∧ pc' = pc ∨ s.pushes p' = some pc' := update_some h

/-- A call that begins, a step of one call, or nothing. -/
inductive Does : HubStep → CommandServer → Prop where
  | nothing (st : HubStep) : Does st s
  | stream (c : ℕ) (caller : Principal) (node : String) : Does (.stream c caller node) (s.stream c caller node)
  | logs (l : ℕ) (id node : String) (req : LogsRequest) (hl : s.logs l = none) (hid : id ∉ s.drawn) :
      Does (.logs l id node req) { s.setLogs l { id := id, node := node, req := req } with drawn := id :: s.drawn }
  | push (p : ℕ) (caller : Principal) (hp : s.pushes p = none) : Does (.push p caller) (s.setPush p { caller := caller })
  | ofStream (c : ℕ) (sc : StreamCall) (st : HubStep) (hc : s.calls c = some sc) (hst : st.streamNo = some c) :
      Does st (s.nextStream c sc st)
  | ofLogs (l : ℕ) (lc : LogsCall) (st : HubStep) (hl : s.logs l = some lc) (hst : st.logsNo = some l) :
      Does st (s.nextLogs l lc st)
  | ofPush (p : ℕ) (pc : PushCall) (st : HubStep) (hp : s.pushes p = some pc) (hst : st.pushNo = some p) :
      Does st (s.nextPush p pc st)

theorem bind_call {α : Type} {no : Option ℕ} {get : ℕ → Option α} {i : ℕ} {a : α}
    (h : (no.bind fun i => (get i).map (i, ·)) = some (i, a)) : no = some i ∧ get i = some a := by
  obtain ⟨i', hi', hm⟩ := Option.bind_eq_some_iff.mp h
  obtain ⟨a', ha', he⟩ := Option.map_eq_some_iff.mp hm
  cases he
  exact ⟨hi', ha'⟩

theorem next_does (st : HubStep) : Does s st (s.next st) := by
  unfold next
  split
  · exact Does.stream _ _ _
  · split
    · exact Does.nothing _
    · rename_i h
      rw [not_or] at h
      exact Does.logs _ _ _ _ (Option.not_isSome_iff_eq_none.mp h.1) h.2
  · split
    · exact Does.nothing _
    · rename_i h
      exact Does.push _ _ (Option.not_isSome_iff_eq_none.mp h)
  · split
    · rename_i h
      obtain ⟨hst, hc⟩ := bind_call h
      exact Does.ofStream _ _ _ hc hst
    · split
      · rename_i h
        obtain ⟨hst, hl⟩ := bind_call h
        exact Does.ofLogs _ _ _ hl hst
      · split
        · rename_i h
          obtain ⟨hst, hp⟩ := bind_call h
          exact Does.ofPush _ _ _ hp hst
        · exact Does.nothing _

theorem send_some {node : String} {cmd : Command} {c : ℕ} {s' : CommandServer} (h : s.send node cmd = (some c, s')) :
    ∃ sc, s.streams[node]? = some c ∧ s.calls c = some sc ∧ s' = s.setCall c { sc with ch := sc.ch ++ [cmd] } := by
  unfold send at h
  split at h
  · cases h
  · rename_i c' hc'
    split at h
    · cases h
    · rename_i sc hsc
      split at h
      · obtain ⟨hc, rfl⟩ := Prod.mk.inj h
        cases hc
        exact ⟨sc, hc', hsc, rfl⟩
      · cases h

theorem send_none {node : String} {cmd : Command} {s' : CommandServer} (h : s.send node cmd = (none, s')) : s' = s := by
  unfold send at h
  split at h
  · exact (Prod.mk.inj h).2.symm
  · split at h
    · exact (Prod.mk.inj h).2.symm
    · split at h
      · cases h
      · exact (Prod.mk.inj h).2.symm

theorem send_logs (node : String) (cmd : Command) : (s.send node cmd).2.logs = s.logs := by
  cases h : s.send node cmd with
  | mk queued s' =>
    cases queued with
    | none => rw [send_none s h]
    | some c =>
      obtain ⟨sc, -, -, rfl⟩ := send_some s h
      rfl

theorem put_some {w : ℕ} {d : Delivery} {s' : CommandServer} (h : s.put w d = some s') :
    ∃ lc, s.logs w = some lc ∧ s' = s.setLogs w { lc with ch := lc.ch ++ [d], got := lc.got ++ [d] } := by
  unfold put at h
  split at h
  · cases h
  · rename_i lc hlc
    split at h
    · exact ⟨lc, hlc, (Option.some.inj h).symm⟩
    · cases h

variable {s} in
theorem closeReplaced_calls (old : Option ℕ) {c : ℕ} {sc : StreamCall} (hc : s.calls c = some sc) :
    ∃ r, (s.closeReplaced old).calls c = some { sc with replaced := r } := by
  unfold closeReplaced
  split
  · exact ⟨sc.replaced, hc⟩
  · split
    · exact ⟨sc.replaced, hc⟩
    · rename_i o so hso
      rw [calls_setCall]
      split
      · rename_i he
        subst he
        obtain rfl := Option.mem_unique hc hso
        exact ⟨true, rfl⟩
      · exact ⟨sc.replaced, hc⟩

end CommandServer

end Klite
