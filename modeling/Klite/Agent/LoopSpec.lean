import Klite.Agent.Match
import Klite.Lib.Process

/-!
# What each call of the reconcile loop follows

On any machine, whatever the calls answer: which state a write is made from and which calls
led to it, when a container is run, and that a pass comes to each instance once.
-/

namespace Klite.Agent
open Lib

variable {st : InstState}

section Trace
variable {W : Type}

abbrev Trace (W : Type) := List (Event Op Res W)

def look : Trace W → Option (Instance × InstState)
  | ⟨.snapshotDesired, _, _, _⟩ :: _ => none
  | ⟨.stateFor inst, st, _, _⟩ :: _ => some (inst, st)
  | ⟨.putState _ _, _, _, _⟩ :: _ => none
  | _ :: h => look h
  | [] => none

def current : Trace W → Option Desired
  | ⟨.snapshotDesired, desired, _, _⟩ :: _ => some desired
  | _ :: h => current h
  | [] => none

def shown : Trace W → Option (List RunningInstance)
  | ⟨.snapshotDesired, _, _, _⟩ :: _ => none
  | ⟨.containerList, .ok l, _, _⟩ :: _ => some l
  | _ :: h => shown h
  | [] => none

def visited : Trace W → List String
  | ⟨.snapshotDesired, _, _, _⟩ :: _ => []
  | ⟨.stateFor inst, _, _, _⟩ :: h => inst.metadata.name :: visited h
  | _ :: h => visited h
  | [] => []

def clock : Trace W → Option Int
  | ⟨.now, t, _, _⟩ :: _ => some t
  | _ :: h => clock h
  | [] => none

def createdBy : Trace W → Option (Instance × ℕ)
  | ⟨.containerCreate inst, .created id, _, _⟩ :: _ => some (inst, id)
  | _ => none

def wrote : Event Op Res W → Option (String × InstState)
  | ⟨.putState name st, _, _, _⟩ => some (name, st)
  | _ => none

theorem wrote_any {e : Event Op Res W} {p : String × InstState → Bool} (h : (wrote e).any p = true) :
    ∃ name st, wrote e = some (name, st) ∧ p (name, st) = true := by
  cases hw : wrote e with
  | none =>
    rw [hw] at h
    cases h
  | some x =>
    rw [hw] at h
    exact ⟨x.1, x.2, rfl, h⟩

variable {h : Trace W}

theorem newest_wrote {p : Event Op Res W → String × InstState → Bool}
    (hp : h.head?.any (fun e => (wrote e).any (p e)) = true) :
    ∃ e t name st, h = e :: t ∧ wrote e = some (name, st) ∧ p e (name, st) = true := by
  cases h with
  | nil => cases hp
  | cons e t =>
    obtain ⟨name, st, hwr, hx⟩ := wrote_any (e := e) hp
    exact ⟨e, t, name, st, rfl, hwr, hx⟩

theorem op_wrote {e : Event Op Res W} {name : String} (h : wrote e = some (name, st)) : e.op = .putState name st := by
  unfold wrote at h
  split at h
  · cases h
    rfl
  · cases h

def ShownFor (h : Trace W) (inst : Instance) (ri : RunningInstance) : Prop :=
  ∃ l, shown h = some l ∧ ri ∈ l ∧ ri.labels = (boxOf inst).labels

def blame (node : String) (inst : Instance) : Event Op Res W → Option String
  | ⟨.ensureImage _, .error e, _, _⟩ => some e
  | ⟨.createOptions _, .error e, _, _⟩ => some e
  | ⟨.containerRemove _, .error e, _, _⟩ => some ("remove container" ++ ": " ++ e)
  | ⟨.containerRemoveName _, .error e, _, _⟩ =>
    some ("remove stale container " ++ containerName node inst.metadata.name ++ ": " ++ e)
  | ⟨.containerCreate _, .conflict e, _, _⟩ =>
    some ("create container " ++ containerName node inst.metadata.name ++ ": " ++ e)
  | ⟨.containerCreate _, .failed e, _, _⟩ =>
    some ("create container " ++ containerName node inst.metadata.name ++ ": " ++ e)
  | ⟨.containerStart _, .error e, _, _⟩ =>
    some ("start container " ++ containerName node inst.metadata.name ++ ": " ++ e)
  | _ => none

def kept (inst : Instance) (st : InstState) : InstState :=
  { st with draining := st.draining || inst.phase = .draining }

inductive PhaseRead (inst : Instance) (h : Trace W) : InstancePhase → Trace W → Prop
  | plain (hp : inst.spec.container.readinessProbe.getD 0 ≤ 0) : PhaseRead inst h .ready h
  | probed (hp : ¬ inst.spec.container.readinessProbe.getD 0 ≤ 0) (b : Bool) (w w' : W) :
    PhaseRead inst h (if b then .ready else .running) (⟨.probeReady inst.metadata.name, b, w, w'⟩ :: h)

inductive Waits (inst : Instance) (st₀ : InstState) : Event Op Res W → Prop
  | look (w w' : W) : Waits inst st₀ ⟨.stateFor inst, st₀, w, w'⟩
  | removed (id : ℕ) (w w' : W) : Waits inst st₀ ⟨.containerRemove id, .ok (), w, w'⟩

/- The state written for an instance after the look at `st₀`, and the calls it is written after. -/
inductive Written (node : String) (inst : Instance) (st₀ : InstState) : Trace W → InstState → Prop
  | gated (t : Int) (e : Event Op Res W) (h : Trace W) (w w' : W) (he : Waits inst st₀ e)
      (hd : (kept inst st₀).draining = false) :
      Written node inst st₀ (⟨.now, t, w, w'⟩ :: e :: h) (kept inst st₀)
  | failed (t : Int) (e : Event Op Res W) (text : String) (h : Trace W) (w w' : W) (he : blame node inst e = some text)
      (hd : (kept inst st₀).draining = false) :
      Written node inst st₀ (⟨.now, t, w, w'⟩ :: e :: h)
        { kept inst st₀ with
          phase := .failed
          message := text
          backoff := nextBackoff st₀.backoff
          nextTry := some (t + nextBackoff st₀.backoff) }
  | crashed (t : Int) (ri : RunningInstance) (h : Trace W) (w w' w₁ w₁' : W)
      (hm : ShownFor h inst ri) (hr : ri.running = false) (ha : st₀.awaitingRestart = false)
      (hd : (kept inst st₀).draining = false) :
      Written node inst st₀ (⟨.now, t, w, w'⟩ :: ⟨.stateFor inst, st₀, w₁, w₁'⟩ :: h)
        { kept inst st₀ with
          awaitingRestart := true
          backoff := nextBackoff st₀.backoff
          nextTry := some (t + nextBackoff st₀.backoff)
          phase := .failed
          message := "container exited with code " ++ toString ri.exitCode
          containerID := some ri.containerID
          ip := "" }
  | started (id : ℕ) (ip : String) (phase : InstancePhase) (h h' : Trace W) (w w' w₁ w₁' w₂ w₂' : W)
      (hp : PhaseRead inst (⟨.containerStart id, .ok (), w₁, w₁'⟩ :: ⟨.containerCreate inst, .created id, w₂, w₂'⟩ :: h) phase h')
      (hd : (kept inst st₀).draining = false) :
      Written node inst st₀ (⟨.inspectIP id, ip, w, w'⟩ :: h')
        { kept inst st₀ with
          restarts := if st₀.awaitingRestart then int32 (st₀.restarts + 1) else st₀.restarts
          awaitingRestart := false
          phase := phase
          containerID := some id
          message := ""
          ip := ip }
  | running (ri : RunningInstance) (phase : InstancePhase) (h h' : Trace W) (w w' : W)
      (hm : ShownFor h inst ri) (hr : ri.running = true)
      (hp : PhaseRead inst (⟨.stateFor inst, st₀, w, w'⟩ :: h) phase h') (hd : (kept inst st₀).draining = false) :
      Written node inst st₀ h'
        { kept inst st₀ with
          awaitingRestart := false
          phase := phase
          containerID := some ri.containerID
          ip := if ri.ip ≠ "" then ri.ip else st₀.ip
          message := "" }
  | drained (ri : Option RunningInstance) (h : Trace W) (w w' : W) (hm : ∀ r, ri = some r → ShownFor h inst r)
      (hd : (kept inst st₀).draining = true) :
      Written node inst st₀ (⟨.stateFor inst, st₀, w, w'⟩ :: h) (drained ri (kept inst st₀))

/-- What a call follows. -/
def loopSpec (node : String) (h : Trace W) : Op → Prop
  | .snapshotDesired => look h = none
  | .stateFor inst => look h = none ∧ inst.metadata.name ∉ visited h ∧
      ∃ D, current h = some D ∧ D.map[inst.metadata.name]? = some inst
  | .putState name st => ∃ inst st₀, look h = some (inst, st₀) ∧ name = inst.metadata.name ∧ Written node inst st₀ h st
  | .pruneState D => look h = none ∧ current h = some D
  | .createOptions inst => ∃ st₀ t, look h = some (inst, st₀) ∧ (kept inst st₀).draining = false ∧
      clock h = some t ∧ before t st₀.nextTry = false
  | .containerStart id => ∃ inst st₀ w w' l, look h = some (inst, st₀) ∧
      h = ⟨.containerCreate inst, .created id, w, w'⟩ :: l
  | _ => True

theorem look_visited {inst : Instance} (hl : look h = some (inst, st)) : inst.metadata.name ∈ visited h := by
  induction h with
  | nil => cases hl
  | cons e h ih =>
    obtain ⟨op, r, w, w'⟩ := e
    cases op with
    | snapshotDesired => cases hl
    | stateFor inst' =>
      cases hl
      exact List.mem_cons_self
    | putState name st' => cases hl
    | _ => exact ih hl

structure Alike (h h' : Trace W) : Prop where
  look : look h' = look h
  current : current h' = current h
  shown : shown h' = shown h
  visited : visited h' = visited h

structure Wrote (h h' : Trace W) : Prop where
  look : look h' = none
  current : current h' = current h
  shown : shown h' = shown h
  visited : visited h' = visited h

theorem alike_refl (h : Trace W) : Alike h h := ⟨rfl, rfl, rfl, rfl⟩

theorem alike_trans {h' h'' : Trace W} (a : Alike h h') (b : Alike h' h'') : Alike h h'' :=
  ⟨b.look.trans a.look, b.current.trans a.current, b.shown.trans a.shown, b.visited.trans a.visited⟩

theorem wrote_after {h' h'' : Trace W} (a : Alike h h') (b : Wrote h' h'') : Wrote h h'' :=
  ⟨b.look, b.current.trans a.current, b.shown.trans a.shown, b.visited.trans a.visited⟩

def Op.still : Op → Bool
  | .snapshotDesired | .containerList | .stateFor _ | .putState _ _ => false
  | _ => true

theorem alike_still (e : Event Op Res W) (h : Trace W) (he : e.op.still) : Alike h (e :: h) := by
  obtain ⟨op, r, w, w'⟩ := e
  cases op with
  | snapshotDesired => cases he
  | containerList => cases he
  | stateFor inst => cases he
  | putState name st => cases he
  | _ => exact ⟨rfl, rfl, rfl, rfl⟩

end Trace

variable {op : Op}

section Rules
variable {M : Machine Op Res} {node : String} {α β : Type} {h : Hist M} {Q Q' : Hist M → α → Prop}

abbrev Does (node : String) (Q : Hist M → α → Prop) (p : Code α) (h : Hist M) : Prop :=
  ∀ w, Guards (AnyMove M) (AnyEvent M) (fun h _ op => loopSpec node h op) (fun h' _ a => Q h' a) p h w

theorem does_call {k : Res op → Code α} (hs : loopSpec node h op)
    (hk : ∀ r w w', Does node Q (k r) (⟨op, r, w, w'⟩ :: h)) : Does node Q (call op >>= k) h :=
  fun _ => guards_answer (fun _ _ => hs) fun w' _ r w'' _ _ _ => hk r w' w'' w''

theorem does_mono {p : Code α} (hp : Does node Q p h) (hq : ∀ h' a, Q h' a → Q' h' a) : Does node Q' p h :=
  fun w => guards_mono (fun h' _ a => hq h' a) p h w (hp w)

theorem does_bind {P : Hist M → β → Prop} {p : Code β} {f : β → Code α} (hp : Does node P p h)
    (hf : ∀ h' b, P h' b → Does node Q (f b) h') : Does node Q (p >>= f) h :=
  fun w => guards_bind (hp w) fun h' w' b hb => hf h' b hb w'

theorem does_foldlM {σ : Type} (f : σ → β → Code σ) (I : List β → Hist M → Prop)
    (hf : ∀ b bs h x, I (b :: bs) h → Does node (fun h' _ => I bs h') (f x b) h) (bs : List β) (x : σ) (hi : I bs h) :
    Does node (fun h' _ => I [] h') (bs.foldlM f x) h :=
  fun w => guards_foldlM f (fun bs h _ _ => I bs h) (fun b bs h w x hi => hf b bs h x hi w) bs x h w hi

end Rules

section Instance
variable {M : Machine Op Res} {node : String} {h : Hist M} {inst : Instance} {st₀ : InstState}

theorem does_put {α : Type} {a : α} (hl : look h = some (inst, st₀)) (hw : Written node inst st₀ h st) :
    Does node (fun h' _ => Wrote h h') (call (.putState inst.metadata.name st) >>= fun _ => pure a) h :=
  does_call ⟨inst, st₀, hl, rfl, hw⟩ fun _ _ _ _ => ⟨rfl, rfl, rfl, rfl⟩

theorem does_runningPhase : Does node (fun h' phase => PhaseRead inst h phase h') (runningPhase inst) h := by
  unfold runningPhase
  split
  · exact fun _ => .plain ‹_›
  · refine does_call trivial ?_
    intro b w w'
    cases b with
    | true => exact fun _ => .probed ‹_› true w w'
    | false => exact fun _ => .probed ‹_› false w w'

theorem alike_phaseRead {phase : InstancePhase} {h' : Hist M} (hp : PhaseRead inst h phase h') : Alike h h' := by
  cases hp with
  | plain => exact alike_refl h
  | probed => exact alike_still _ h rfl

theorem does_failInstance {text : String} {e : Event Op Res M.World} (hl : look (e :: h) = some (inst, st₀))
    (hd : (kept inst st₀).draining = false) (he : blame node inst e = some text) :
    Does node (fun h' _ => Wrote (e :: h) h') (failInstance inst.metadata.name (kept inst st₀) text) (e :: h) := by
  unfold failInstance
  refine does_call trivial ?_
  intro t w w'
  exact does_mono (does_put hl (.failed t e text h w w' he hd)) fun _ _ hw => wrote_after (alike_still _ _ rfl) hw

def Ran (node : String) (inst : Instance) (h h' : Hist M) : Except String ℕ → Prop
  | .error text => Alike h h' ∧ ∃ e l, h' = e :: l ∧ blame node inst e = some text
  | .ok id => Alike h h' ∧ ∃ w w' w₁ w₁' l,
      h' = ⟨.containerStart id, .ok (), w, w'⟩ :: ⟨.containerCreate inst, .created id, w₁, w₁'⟩ :: l

theorem ran_after {h' h'' : Hist M} {r : Except String ℕ} (a : Alike h h') (b : Ran node inst h' h'' r) :
    Ran node inst h h'' r := by
  cases r with
  | error text => exact ⟨alike_trans a b.1, b.2⟩
  | ok id => exact ⟨alike_trans a b.1, b.2⟩

variable {w w' : M.World}

theorem does_startCreated {r : Created} (hl : look h = some (inst, st₀)) :
    Does node (Ran node inst h) (startCreated (containerName node inst.metadata.name) r)
      (⟨.containerCreate inst, r, w, w'⟩ :: h) := by
  have ha : Alike h (⟨.containerCreate inst, r, w, w'⟩ :: h) := alike_still _ h rfl
  cases r with
  | created id =>
    refine does_call ⟨inst, st₀, w, w', h, ha.look.trans hl, rfl⟩ ?_
    intro r w₁ w₁'
    have ha' : Alike h (⟨.containerStart id, r, w₁, w₁'⟩ :: ⟨.containerCreate inst, .created id, w, w'⟩ :: h) :=
      alike_trans ha (alike_still _ _ rfl)
    cases r with
    | ok _ => exact fun _ => ⟨ha', w₁, w₁', w, w', h, rfl⟩
    | error e => exact fun _ => ⟨ha', _, _, rfl, rfl⟩
  | conflict e => exact fun _ => ⟨ha, _, _, rfl, rfl⟩
  | failed e => exact fun _ => ⟨ha, _, _, rfl, rfl⟩

theorem does_createAndStart (hl : look h = some (inst, st₀)) :
    Does node (Ran node inst h) (createAndStart node inst) h := by
  unfold createAndStart
  refine does_call trivial ?_
  intro r w w'
  have ha : Alike h (⟨.containerCreate inst, r, w, w'⟩ :: h) := alike_still _ h rfl
  cases r with
  | created id => exact does_startCreated hl
  | failed e => exact does_startCreated hl
  | conflict e =>
    refine does_call trivial ?_
    intro r w₁ w₁'
    have ha' : Alike h (⟨.containerRemoveName inst.metadata.name, r, w₁, w₁'⟩ ::
      ⟨.containerCreate inst, .conflict e, w, w'⟩ :: h) := alike_trans ha (alike_still _ _ rfl)
    cases r with
    | error e => exact fun _ => ⟨ha', _, _, rfl, rfl⟩
    | ok _ =>
      refine does_call trivial ?_
      intro r w₂ w₂'
      exact does_mono (does_startCreated (ha'.look.trans hl)) fun _ _ hr => ran_after ha' hr

theorem does_runInstance {t : Int} (hl : look h = some (inst, st₀)) (hd : (kept inst st₀).draining = false)
    (ht : clock h = some t) (hb : before t st₀.nextTry = false) :
    Does node (Ran node inst h) (runInstance node inst) h := by
  unfold runInstance
  refine does_call ⟨st₀, t, hl, hd, ht, hb⟩ ?_
  intro r w w'
  have ha : Alike h (⟨.createOptions inst, r, w, w'⟩ :: h) := alike_still _ h rfl
  cases r with
  | error e => exact fun _ => ⟨ha, _, _, rfl, rfl⟩
  | ok _ => exact does_mono (does_createAndStart (ha.look.trans hl)) fun _ _ hr => ran_after ha hr

theorem does_startInstance {e : Event Op Res M.World} (hl : look (e :: h) = some (inst, st₀))
    (hd : (kept inst st₀).draining = false) (he : Waits inst st₀ e) :
    Does node (fun h' _ => Wrote (e :: h) h') (startInstance node inst (kept inst st₀)) (e :: h) := by
  unfold startInstance
  refine does_call trivial ?_
  intro t w w'
  have ha : Alike (e :: h) (⟨.now, t, w, w'⟩ :: e :: h) := alike_still _ _ rfl
  split
  · exact does_mono (does_put (ha.look.trans hl) (.gated t e h w w' he hd)) fun _ _ hw => wrote_after ha hw
  · rename_i hb
    refine does_call trivial ?_
    intro r w₁ w₁'
    have ha₁ : Alike (e :: h) (⟨.ensureImage inst.spec.container.image, r, w₁, w₁'⟩ :: ⟨.now, t, w, w'⟩ :: e :: h) :=
      alike_trans ha (alike_still _ _ rfl)
    cases r with
    | error text =>
      exact does_mono (does_failInstance (ha₁.look.trans hl) hd rfl) fun _ _ hw => wrote_after ha₁ hw
    | ok _ =>
      refine does_bind (does_runInstance (ha₁.look.trans hl) hd (t := t) rfl (Bool.eq_false_iff.mpr hb)) ?_
      intro h₂ r hr
      cases r with
      | error text =>
        obtain ⟨ha₂, c, l, rfl, hc⟩ := hr
        have ha₂ := alike_trans ha₁ ha₂
        exact does_mono (does_failInstance (ha₂.look.trans hl) hd hc) fun _ _ hw => wrote_after ha₂ hw
      | ok id =>
        obtain ⟨ha₂, w₂, w₂', w₃, w₃', l, rfl⟩ := hr
        have ha₂ := alike_trans ha₁ ha₂
        refine does_bind does_runningPhase ?_
        intro h₃ phase hp
        have ha₃ := alike_trans ha₂ (alike_phaseRead hp)
        refine does_call trivial ?_
        intro ip w₄ w₄'
        have ha₄ : Alike (e :: h) (⟨.inspectIP id, ip, w₄, w₄'⟩ :: h₃) := alike_trans ha₃ (alike_still _ _ rfl)
        have hw : Written node inst st₀ _ _ := .started id ip phase l h₃ w₄ w₄' w₂ w₂' w₃ w₃' hp hd
        refine does_mono (does_put (ha₄.look.trans hl) ?_) fun _ _ hw => wrote_after ha₄ hw
        cases ha : st₀.awaitingRestart <;> simpa [kept, ha] using hw

theorem does_restartInstance {ri : RunningInstance} (hd : (kept inst st₀).draining = false) (hm : ShownFor h inst ri)
    (hr : ri.running = false) :
    Does node (fun h' _ => Wrote (⟨.stateFor inst, st₀, w, w'⟩ :: h) h') (restartInstance node inst ri (kept inst st₀))
      (⟨.stateFor inst, st₀, w, w'⟩ :: h) := by
  unfold restartInstance
  split
  · rename_i ha
    have ha : st₀.awaitingRestart = false := by simpa [kept] using ha
    refine does_call trivial ?_
    intro t w₁ w₁'
    have hw : Written node inst st₀ _ _ := .crashed t ri h w₁ w₁' w w' hm hr ha hd
    exact does_mono (does_put rfl hw) fun _ _ hw => wrote_after (alike_still _ _ rfl) hw
  · refine does_call trivial ?_
    intro t w₁ w₁'
    have ha₁ : Alike (⟨.stateFor inst, st₀, w, w'⟩ :: h) (⟨.now, t, w₁, w₁'⟩ :: ⟨.stateFor inst, st₀, w, w'⟩ :: h) :=
      alike_still _ _ rfl
    split
    · exact does_mono (does_put rfl (.gated t _ h w₁ w₁' (.look w w') hd)) fun _ _ hw => wrote_after ha₁ hw
    · unfold removeInstance
      refine does_call trivial ?_
      intro r w₂ w₂'
      have ha₂ : Alike (⟨.stateFor inst, st₀, w, w'⟩ :: h) (⟨.containerRemove ri.containerID, r, w₂, w₂'⟩ ::
        ⟨.now, t, w₁, w₁'⟩ :: ⟨.stateFor inst, st₀, w, w'⟩ :: h) := alike_trans ha₁ (alike_still _ _ rfl)
      cases r with
      | error e => exact does_mono (does_failInstance ha₂.look hd rfl) fun _ _ hw => wrote_after ha₂ hw
      | ok _ => exact does_mono (does_startInstance ha₂.look hd (.removed _ _ _)) fun _ _ hw => wrote_after ha₂ hw

theorem does_markRunning {ri : RunningInstance} (hd : (kept inst st₀).draining = false) (hm : ShownFor h inst ri)
    (hr : ri.running = true) :
    Does node (fun h' _ => Wrote (⟨.stateFor inst, st₀, w, w'⟩ :: h) h') (markRunning inst ri (kept inst st₀))
      (⟨.stateFor inst, st₀, w, w'⟩ :: h) := by
  unfold markRunning
  refine does_bind does_runningPhase ?_
  intro h₁ phase hp
  have ha := alike_phaseRead hp
  exact does_mono (does_put (ha.look.trans rfl) (.running ri phase h h₁ w w' hm hr hp hd)) fun _ _ hw => wrote_after ha hw

theorem does_reconcileInstance {ri : Option RunningInstance} (hl : look h = none) (hv : inst.metadata.name ∉ visited h)
    {D : Desired} (hc : current h = some D) (hD : D.map[inst.metadata.name]? = some inst)
    (hm : ∀ r, ri = some r → ShownFor h inst r) :
    Does node (fun h' _ => look h' = none ∧ current h' = current h ∧ shown h' = shown h ∧
      visited h' = inst.metadata.name :: visited h) (reconcileInstance node inst ri) h := by
  unfold reconcileInstance
  refine does_call ⟨hl, hv, D, hc, hD⟩ ?_
  intro st₀ w w'
  have hend : ∀ h' : Hist M, Wrote (⟨.stateFor inst, st₀, w, w'⟩ :: h) h' →
      look h' = none ∧ current h' = current h ∧ shown h' = shown h ∧ visited h' = inst.metadata.name :: visited h :=
    fun h' hw => ⟨hw.look, hw.current, hw.shown, hw.visited⟩
  show Does node _ (if (kept inst st₀).draining then observeDraining inst ri (kept inst st₀) else _) _
  split
  · rename_i hd
    refine does_mono ?_ fun h' _ => hend h'
    exact does_put rfl (.drained ri h w w' hm hd)
  · rename_i hd
    have hd := Bool.eq_false_iff.mpr hd
    refine does_mono ?_ fun h' _ => hend h'
    cases ri with
    | none => exact does_startInstance rfl hd (.look w w')
    | some ri =>
      dsimp only
      split
      · exact does_markRunning hd (hm ri rfl) ‹_›
      · exact does_restartInstance hd (hm ri rfl) (Bool.eq_false_iff.mpr ‹_›)

end Instance

section Loop
variable {M : Machine Op Res} {node : String} {α β : Type} {h : Hist M}

def Op.plain : Op → Bool
  | .createOptions _ | .containerStart _ | .pruneState _ => false
  | op => op.still

theorem plain_spec (hop : op.plain) : op.still ∧ loopSpec node h op := by
  cases op with
  | snapshotDesired => cases hop
  | containerList => cases hop
  | stateFor inst => cases hop
  | putState name st => cases hop
  | pruneState D => cases hop
  | createOptions inst => cases hop
  | containerStart id => cases hop
  | _ => exact ⟨rfl, trivial⟩

abbrev Plain (p : Code α) : Prop := Only (fun op => op.plain) p

theorem does_plain {p : Code α} (hp : Plain p) : Does node (fun h' _ => Alike h h') p h := by
  induction p generalizing h with
  | ret a => exact fun _ => alike_refl h
  | crash => exact hp.elim
  | call op k ih =>
    obtain ⟨hstill, hspec⟩ : op.still ∧ loopSpec node h op := plain_spec hp.1
    refine does_call (k := k) hspec ?_
    intro r w w'
    exact does_mono (ih r (hp.2 r)) fun _ _ ha => alike_trans (alike_still _ h hstill) ha

theorem plain_removeOrphan (ri : RunningInstance) : Plain (removeOrphan ri) := by
  have hstop : Plain (stopOrphan ri) := by
    unfold stopOrphan
    split
    · exact only_bind (only_call rfl) fun _ => only_bind (only_call rfl) fun _ => trivial
    · trivial
  refine only_bind hstop fun r => ?_
  cases r with
  | error e => trivial
  | ok _ =>
    refine only_bind (only_bind (only_call rfl) fun _ => trivial) fun r => ?_
    cases r with
    | error e => trivial
    | ok _ => exact only_bind (only_call rfl) fun _ => trivial

theorem plain_removeOrphans (orphans : List RunningInstance) : Plain (removeOrphans orphans) := by
  have key : ∀ errs : List String,
      Plain (orphans.foldlM (fun errs ri => do pure (note errs "orphan" ri.instanceName (← removeOrphan ri))) errs) := by
    induction orphans with
    | nil => exact fun _ => trivial
    | cons ri l ih =>
      intro errs
      rw [List.foldlM_cons]
      exact only_bind (only_bind (plain_removeOrphan ri) fun _ => trivial) ih
  exact key []

structure Underway (D : Desired) (l : List RunningInstance) (names : List String) (h : Hist M) : Prop where
  look : look h = none
  current : current h = some D
  shown : shown h = some l
  nodup : names.Nodup
  ahead : ∀ name ∈ names, name ∉ visited h

theorem does_reconcileNamed {D : Desired} {l : List RunningInstance} {errs : List String} {name : String}
    {rest : List String} (hw : Underway D l (name :: rest) h) :
    Does node (fun h' _ => Underway D l rest h') (reconcileNamed node D (matchContainers D l).1 errs name) h := by
  obtain ⟨hnot, hrest⟩ := List.nodup_cons.mp hw.nodup
  unfold reconcileNamed
  cases hi : D.map[name]? with
  | none =>
    exact fun _ => ⟨hw.look, hw.current, hw.shown, hrest, fun n hn => hw.ahead n (List.mem_cons_of_mem name hn)⟩
  | some i =>
    obtain rfl := D.keyed name i hi
    have hm : ∀ r, (matchContainers D l).1[i.metadata.name]? = some r → ShownFor h i r :=
      fun r hr => ⟨l, hw.shown, (byName_some hr).1, byName_labels hi hr⟩
    refine does_bind (does_reconcileInstance hw.look (hw.ahead _ List.mem_cons_self) hw.current hi hm) ?_
    rintro h' r ⟨hl, hc, hs, hv⟩ w
    refine ⟨hl, hc.trans hw.current, hs.trans hw.shown, hrest, ?_⟩
    intro n hn hin
    rw [hv] at hin
    rcases List.mem_cons.mp hin with rfl | hin
    · exact hnot hn
    · exact hw.ahead n (List.mem_cons_of_mem _ hn) hin

theorem does_reconcile (p : Pass) (hl : look h = none) : Does node (fun h' _ => look h' = none) (reconcile node p) h := by
  unfold reconcile
  refine does_call hl ?_
  intro D w w'
  unfold listInstances
  refine does_call trivial ?_
  intro r w₁ w₁'
  cases r with
  | error e => exact fun _ => rfl
  | ok actual =>
    refine does_bind (does_plain (plain_removeOrphans _)) ?_
    intro h₁ errs ha
    have hw : Underway D actual (p.order D.map.keys) h₁ := by
      refine ⟨ha.look, ha.current, ha.shown, (p.walks _).nodup_iff.mpr Std.ExtTreeMap.nodup_keys, ?_⟩
      intro name _ hin
      rw [ha.visited] at hin
      exact absurd hin List.not_mem_nil
    refine does_bind (does_foldlM _ (fun names h' => Underway D actual names h')
      (fun name rest h' errs hw => does_reconcileNamed hw) _ errs hw) ?_
    intro h₂ errs' hw'
    exact does_call ⟨hw'.look, hw'.current⟩ fun _ _ _ _ => hw'.look

theorem does_turn (p : Pass) (hl : look h = none) : Does node (fun h' _ => look h' = none) (turn node p) h := by
  unfold turn
  refine does_call trivial ?_
  intro r w w'
  cases r with
  | false => exact fun _ => hl
  | true => exact does_reconcile p hl

theorem does_reconcileLoop (node : String) (ps : List Pass) (hl : look h = none) :
    Does node (fun h' _ => look h' = none) (reconcileLoop node ps) h := by
  unfold reconcileLoop
  induction ps generalizing h with
  | nil => exact fun _ => hl
  | cons p ps ih =>
    refine does_bind (P := fun h' _ => look h' = none) ?_ fun _ _ hl' => ih hl'
    exact does_bind (does_turn p hl) fun _ _ hl' _ => hl'

end Loop

section Runs
variable {M : Machine Op Res} {node : String} {ps : List Pass} {w : M.World} {C : Lib.Proc M Unit → Tick M → Prop}
  {J : Hist M → M.World → Prop} {ls : List (Tick M)}

theorem admits_any (s : Lib.Proc M Unit) (l : Tick M) : s.Admits (AnyMove M) (AnyEvent M) l := by
  cases l with
  | step c => exact fun _ _ _ => trivial
  | move m => exact trivial

theorem loop_calls {P : Hist M → M.World → Op → Prop} (h0 : J [] w)
    (hmove : ∀ s m, C s (.move m) → J s.hist s.world → J s.hist (M.move m s.world))
    (hcall : ∀ s op k c, s.prog = .call op k → C s (.step c) → loopSpec node s.hist op → J s.hist s.world →
      J (M.event c op s.world :: s.hist) (M.exec c op s.world).2)
    (hP : ∀ h w op, loopSpec node h op → J h w → P h w op) (hl : Each Proc.next C ((reconcileLoop node ps).start w) ls)
    {e : Event Op Res M.World} {h : Hist M}
    (he : e :: h <:+ (runs Proc.next ((reconcileLoop node ps).start w) ls).hist) : P h e.pre e.op :=
  proc_calls (fun _ => trivial) (fun _ _ _ _ _ => trivial) (does_reconcileLoop node ps rfl w)
    (fun s l _ => admits_any s l) h0 hmove hcall hP hl he

end Runs

end Klite.Agent
