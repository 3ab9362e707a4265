import Klite.Agent.Docker
import Klite.Agent.Streams
import Klite.Lib.Threads

/-!
# The agent's memory and the calls of its reconcile loop

Each step is one call to dockerd or one stretch under the agent's lock. A call to dockerd
may fail without effect, or take effect and answer an error. `applySnapshot` and what
klited, dockerd and klite-net do on their own happen between the calls.
-/

namespace Klite.Agent
open Lib

-- reconcile.go:29. No container is "", and a zero Time is before every time.
structure InstState where
  uid : Uid
  phase : InstancePhase
  restarts : Int := 0
  containerID : Option ℕ := none
  ip : String := ""
  message : String := ""
  backoff : Int := 0
  nextTry : Option Int := none
  awaitingRestart : Bool := false
  draining : Bool := false

structure Desired where
  map : Std.ExtTreeMap String Instance
  keyed : ∀ (k : String) (i : Instance), map[k]? = some i → i.metadata.name = k

def desiredOf (insts : List Instance) : Desired where
  map := mapOf (insts.map fun inst => (inst.metadata.name, inst))
  keyed := by
    intro k i h
    obtain ⟨i', -, he⟩ := List.mem_map.mp (mapOf_mem h)
    cases he
    rfl

structure Memory where
  desired : Desired := desiredOf []
  haveSnapshot : Bool := false
  lastRev : Int := 0
  states : Std.ExtTreeMap String InstState := ∅
  grace : Std.ExtTreeMap String Int := ∅
  probeReady : Std.ExtTreeMap String Bool := ∅

def graceOf (inst : Instance) : Int := (inst.spec.drain.map DrainSpec.terminationGraceSeconds).getD 0

namespace Memory
variable (m : Memory)

def applySnapshot (ds : NodeSnapshot) : Memory :=
  { m with
    desired := desiredOf ds.instances
    haveSnapshot := true
    lastRev := ds.revision
    grace := ds.instances.foldl
      (fun g inst => if graceOf inst > 0 then g.insert inst.metadata.name (graceOf inst) else g) m.grace }

def rememberedGrace (name : String) : Int :=
  match m.grace[name]? with
  | some g => g * second
  | none => defaultTerminationGraceSeconds * second

-- A stale container of a desired instance leaves its grace to the next one (reconcile.go:272).
def forgetGrace (name : String) : Memory :=
  if m.desired.map.contains name then m else { m with grace := m.grace.erase name }

def stateFor (inst : Instance) : InstState :=
  let fresh : InstState :=
    { uid := inst.metadata.uid, phase := .pending, restarts := inst.getStatus.restarts }
  match m.states[inst.metadata.name]? with
  | some st => if st.uid = inst.metadata.uid then st else fresh
  | none => fresh

def putState (name : String) (st : InstState) : Memory := { m with states := m.states.insert name st }

def pruneState (desired : Desired) : Memory :=
  { m with states := m.states.filter fun name _ => desired.map.contains name }

end Memory

theorem stateFor_states {m m' : Memory} (hs : m'.states = m.states) (inst : Instance) :
    m'.stateFor inst = m.stateFor inst := by
  unfold Memory.stateFor
  rw [hs]

@[simp] theorem stateFor_uid (m : Memory) (inst : Instance) : (m.stateFor inst).uid = inst.metadata.uid := by
  unfold Memory.stateFor
  split
  · split
    · assumption
    · rfl
  · rfl

theorem stateFor_some {m : Memory} {inst : Instance} {st : InstState} (hs : m.states[inst.metadata.name]? = some st)
    (hu : st.uid = inst.metadata.uid) : m.stateFor inst = st := by
  unfold Memory.stateFor
  rw [hs]
  exact if_pos hu

structure World where
  cluster : Cluster := {}
  mem : Memory := {}
  docker : Docker
  now : Int := 0

inductive Op where
  | haveSnapshot
  | snapshotDesired
  | rememberedGrace (name : String)
  | forgetGrace (name : String)
  | stateFor (inst : Instance)
  | putState (name : String) (st : InstState)
  | pruneState (desired : Desired)
  | probeReady (name : String)
  | now
  | createOptions (inst : Instance)
  | ensureImage (image : String)
  | containerList
  | containerStop (id : ℕ) (grace : Int)
  | containerRemove (id : ℕ)
  | containerRemoveName (name : String)
  | containerCreate (inst : Instance)
  | containerStart (id : ℕ)
  | inspectIP (id : ℕ)

inductive Created where
  | created (id : ℕ)
  | conflict (text : String)
  | failed (text : String)

abbrev Res : Op → Type
  | .haveSnapshot => Bool
  | .snapshotDesired => Desired
  | .rememberedGrace _ => Int
  | .forgetGrace _ => Unit
  | .stateFor _ => InstState
  | .putState _ _ => Unit
  | .pruneState _ => Unit
  | .probeReady _ => Bool
  | .now => Int
  | .createOptions _ => Except String Unit
  | .ensureImage _ => Except String Unit
  | .containerList => Except String (List RunningInstance)
  | .containerStop _ _ => Except String Unit
  | .containerRemove _ => Except String Unit
  | .containerRemoveName _ => Except String Unit
  | .containerCreate _ => Created
  | .containerStart _ => Except String Unit
  | .inspectIP _ => String

abbrev Code := Prog Op Res

/- How a call goes: `fails` answers an error with this text, `landed` lets a failed one take
effect. The address and the exit code are dockerd's to give. -/
structure Choice where
  fails : Bool := false
  landed : Bool := false
  text : String := ""
  ip : String := ""
  code : Int := 0

def verdict (c : Choice) : Except String Unit := if c.fails then .error c.text else .ok ()

def attempt (c : Choice) (w : World) (d : Docker) : Except String Unit × World :=
  (verdict c, if c.fails && !c.landed then w else { w with docker := d })

-- A taken name is a conflict.
def containerCreate (c : Choice) (inst : Instance) (w : World) : Created × World :=
  if h : w.docker.taken inst.metadata.name = false then
    if c.fails && !c.landed then (.failed c.text, w)
    else (if c.fails then .failed c.text else .created w.docker.nextId, { w with docker := w.docker.create inst h })
  else if c.fails then (.failed c.text, w)
  else (.conflict c.text, w)

def containerStart (c : Choice) (id : ℕ) (w : World) : Except String Unit × World :=
  match w.docker.boxes[id]? with
  | some _ => attempt c w (w.docker.start id c.ip)
  | none => (.error c.text, w)

def exec (c : Choice) : (op : Op) → World → Res op × World
  | .haveSnapshot, w => (w.mem.haveSnapshot, w)
  | .snapshotDesired, w => (w.mem.desired, w)
  | .rememberedGrace name, w => (w.mem.rememberedGrace name, w)
  | .forgetGrace name, w => ((), { w with mem := w.mem.forgetGrace name })
  | .stateFor inst, w => (w.mem.stateFor inst, w)
  | .putState name st, w => ((), { w with mem := w.mem.putState name st })
  | .pruneState desired, w => ((), { w with mem := w.mem.pruneState desired })
  | .probeReady name, w => (w.mem.probeReady.getD name false, w)
  | .now, w => (w.now, w)
  | .createOptions _, w => (verdict c, w)
  | .ensureImage _, w => (verdict c, w)
  | .containerList, w => (if c.fails then .error c.text else .ok w.docker.list, w)
  | .containerStop id _, w => attempt c w (w.docker.stop id c.code)
  | .containerRemove id, w => attempt c w (w.docker.remove id)
  | .containerRemoveName name, w => attempt c w (w.docker.removeNamed name)
  | .containerCreate inst, w => containerCreate c inst w
  | .containerStart id, w => containerStart c id w
  | .inspectIP id, w => (if c.fails then "" else ((w.docker.boxes[id]?).map Box.ip).getD "", w)

inductive Move where
  | commit (s : Store)
  | boot
  | recompute (i r : ℕ)
  | connect (i : ℕ)
  | serve (k : ℕ) (alive : Bool)
  | receive
  | drop
  | exit (id : ℕ) (code : Int)
  | vanish (id : ℕ)
  | probed (name : String) (ready : Bool)
  | tick (d : ℕ)

structure Identity where
  node : String
  principal : Principal

def move (me : Identity) : Move → World → World
  | .commit s, w => { w with cluster := w.cluster.commit s }
  | .boot, w => { w with cluster := w.cluster.boot }
  | .recompute i r, w => { w with cluster := w.cluster.recompute i r }
  | .connect i, w => { w with cluster := w.cluster.connect me.principal ⟨me.node, w.mem.lastRev⟩ i }
  | .serve k alive, w => { w with cluster := w.cluster.serve k alive }
  | .receive, w =>
    match w.cluster.incoming with
    | some m => { w with cluster := w.cluster.receive, mem := w.mem.applySnapshot m.2 }
    | none => w
  | .drop, w => { w with cluster := w.cluster.drop }
  | .exit id code, w => { w with docker := w.docker.stop id code }
  | .vanish id, w => { w with docker := w.docker.remove id }
  | .probed name ready, w => { w with mem := { w.mem with probeReady := w.mem.probeReady.insert name ready } }
  | .tick d, w => { w with now := w.now + d }

abbrev host (me : Identity) : Machine Op Res where
  World := World
  Choice := Choice
  Move := Move
  exec := exec
  move := move me

section Exec
variable {c : Choice} {w : World}

theorem attempt_docker (c : Choice) (w : World) (d : Docker) :
    ((attempt c w d).2.docker = w.docker ∨ (attempt c w d).2.docker = d) ∧
      (attempt c w d).2.cluster = w.cluster ∧ (attempt c w d).2.mem = w.mem := by
  unfold attempt
  dsimp only
  split
  · exact ⟨Or.inl rfl, rfl, rfl⟩
  · exact ⟨Or.inr rfl, rfl, rfl⟩

theorem create_cases (c : Choice) (inst : Instance) (w : World) :
    ((containerCreate c inst w).2 = w ∧ ∀ id, (containerCreate c inst w).1 ≠ .created id) ∨
    ∃ h, (containerCreate c inst w).2 = { w with docker := w.docker.create inst h } ∧
      (∀ text, (containerCreate c inst w).1 ≠ .conflict text) ∧
      ∀ id, (containerCreate c inst w).1 = .created id → id = w.docker.nextId := by
  unfold containerCreate
  split
  · rename_i h
    split
    · exact Or.inl ⟨rfl, by simp⟩
    · refine Or.inr ⟨h, rfl, ?_, ?_⟩
      · intro text
        dsimp only
        split <;> simp
      · intro id
        dsimp only
        split
        · simp
        · intro he
          exact (Created.created.inj he).symm
  · split
    · exact Or.inl ⟨rfl, by simp⟩
    · exact Or.inl ⟨rfl, by simp⟩

theorem start_cases (c : Choice) (id : ℕ) (w : World) :
    ((containerStart c id w).2.docker = w.docker ∨ (containerStart c id w).2.docker = w.docker.start id c.ip) ∧
      (containerStart c id w).2.cluster = w.cluster ∧ (containerStart c id w).2.mem = w.mem := by
  unfold containerStart
  split
  · exact attempt_docker c w _
  · exact ⟨Or.inl rfl, rfl, rfl⟩

theorem create_labels {inst : Instance} {id : ℕ} {b : Box} (hr : (containerCreate c inst w).1 = .created id)
    (hb : (containerCreate c inst w).2.docker.boxes[id]? = some b) : b.labels = (boxOf inst).labels := by
  rcases create_cases c inst w with ⟨-, hno⟩ | ⟨hfree, he, -, hid⟩
  · exact absurd hr (hno id)
  · rw [he, Docker.get_create, if_pos (hid id hr).symm] at hb
    cases hb
    rfl

theorem create_running {inst : Instance} {id : ℕ} {b : Box}
    (hb : (containerCreate c inst w).2.docker.boxes[id]? = some b) (hr : b.running = true) :
    w.docker.boxes[id]? = some b := by
  rcases create_cases c inst w with ⟨he, -⟩ | ⟨hfree, he, -⟩
  · rwa [he] at hb
  · rw [he, Docker.get_create] at hb
    split at hb
    · cases hb
      cases hr
    · exact hb

theorem start_back {id i : ℕ} {b' : Box} (hb : (containerStart c id w).2.docker.boxes[i]? = some b') :
    ∃ b, w.docker.boxes[i]? = some b ∧ b.labels = b'.labels ∧ (i ≠ id → b = b') := by
  rcases (start_cases c id w).1 with he | he
  · rw [he] at hb
    exact ⟨b', hb, rfl, fun _ => rfl⟩
  · rw [he] at hb
    unfold Docker.start at hb
    rw [Docker.get_update] at hb
    obtain ⟨b, hb₀, rfl⟩ := Option.map_eq_some_iff.mp hb
    refine ⟨b, hb₀, ?_⟩
    split
    · exact ⟨(start_labels c.ip b).symm, fun hne => absurd ‹_› hne⟩
    · exact ⟨rfl, fun _ => rfl⟩

theorem start_ok {c : Choice} {id : ℕ} {w w' : World} (hx : containerStart c id w = (.ok (), w')) :
    ∃ b, w.docker.boxes[id]? = some b ∧ w'.docker = w.docker.start id c.ip := by
  unfold containerStart at hx
  cases hb : w.docker.boxes[id]? with
  | none =>
    rw [hb] at hx
    cases hx
  | some b =>
    rw [hb] at hx
    unfold attempt verdict at hx
    refine ⟨b, rfl, ?_⟩
    cases hf : c.fails with
    | true => simp [hf] at hx
    | false =>
      rw [hf] at hx
      cases hx
      rfl

theorem start_running (ip : String) (b : Box) : (b.start ip).running = true := by
  unfold Box.start
  split
  · assumption
  · rfl

def Op.writes : Op → Bool
  | .putState _ _ | .pruneState _ => true
  | _ => false

theorem forgetGrace_keeps (m : Memory) (name : String) :
    (m.forgetGrace name).desired = m.desired ∧ (m.forgetGrace name).states = m.states ∧
      (m.forgetGrace name).probeReady = m.probeReady := by
  unfold Memory.forgetGrace
  split
  · exact ⟨rfl, rfl, rfl⟩
  · exact ⟨rfl, rfl, rfl⟩

def Op.remembers : Op → Bool
  | .forgetGrace _ | .putState _ _ | .pruneState _ => true
  | _ => false

theorem exec_mem {op : Op} (hop : op.remembers = false) (c : Choice) (w : World) : (exec c op w).2.mem = w.mem := by
  cases op with
  | forgetGrace name => cases hop
  | putState name st => cases hop
  | pruneState D => cases hop
  | containerStop id grace => exact (attempt_docker c w _).2.2
  | containerRemove id => exact (attempt_docker c w _).2.2
  | containerRemoveName name => exact (attempt_docker c w _).2.2
  | containerCreate inst =>
    show (containerCreate c inst w).2.mem = w.mem
    rcases create_cases c inst w with ⟨he, -⟩ | ⟨h, he, -⟩ <;> rw [he]
  | containerStart id => exact (start_cases c id w).2.2
  | _ => rfl

theorem exec_states {op : Op} (hop : op.writes = false) (c : Choice) (w : World) :
    (exec c op w).2.mem.states = w.mem.states := by
  cases op with
  | putState name st => cases hop
  | pruneState D => cases hop
  | forgetGrace name => exact (forgetGrace_keeps w.mem name).2.1
  | _ => exact congrArg Memory.states (exec_mem rfl c w)

theorem exec_probeReady (c : Choice) (op : Op) (w : World) : (exec c op w).2.mem.probeReady = w.mem.probeReady := by
  cases op with
  | putState name st => rfl
  | pruneState D => rfl
  | forgetGrace name => exact (forgetGrace_keeps w.mem name).2.2
  | _ => exact congrArg Memory.probeReady (exec_mem rfl c w)

theorem exec_keeps (c : Choice) (op : Op) (w : World) :
    (exec c op w).2.cluster = w.cluster ∧ (exec c op w).2.mem.desired = w.mem.desired := by
  constructor
  · cases op with
    | containerStop id grace => exact (attempt_docker c w _).2.1
    | containerRemove id => exact (attempt_docker c w _).2.1
    | containerRemoveName name => exact (attempt_docker c w _).2.1
    | containerCreate inst =>
      show (containerCreate c inst w).2.cluster = w.cluster
      rcases create_cases c inst w with ⟨he, -⟩ | ⟨h, he, -⟩ <;> rw [he]
    | containerStart id => exact (start_cases c id w).2.1
    | _ => rfl
  · cases op with
    | putState name st => rfl
    | pruneState D => rfl
    | forgetGrace name => exact (forgetGrace_keeps w.mem name).1
    | _ => exact congrArg Memory.desired (exec_mem rfl c w)

theorem shrinks_attempt {d : Docker} (hd : Shrinks w.docker d) : Shrinks w.docker (attempt c w d).2.docker := by
  rcases (attempt_docker c w d).1 with h | h
  · rw [h]
    exact shrinks_refl _
  · rw [h]
    exact hd

def Op.grows : Op → Bool
  | .containerCreate _ | .containerStart _ => true
  | _ => false

theorem shrinks_exec {op : Op} (hop : op.grows = false) (c : Choice) (w : World) :
    Shrinks w.docker (exec c op w).2.docker := by
  cases op with
  | containerCreate inst => cases hop
  | containerStart id => cases hop
  | containerStop id grace => exact shrinks_attempt (shrinks_stop id c.code)
  | containerRemove id => exact shrinks_attempt (shrinks_keep _)
  | containerRemoveName name => exact shrinks_attempt (shrinks_keep _)
  | _ => exact shrinks_refl w.docker

theorem shrinks_move (me : Identity) (mv : Move) (w : World) : Shrinks w.docker (move me mv w).docker := by
  cases mv with
  | exit id code => exact shrinks_stop id code
  | vanish id => exact shrinks_keep _
  | receive =>
    unfold move
    dsimp only
    split <;> exact shrinks_refl _
  | _ => exact shrinks_refl w.docker

theorem move_states (me : Identity) (mv : Move) (w : World) : (move me mv w).mem.states = w.mem.states := by
  cases mv with
  | receive =>
    unfold move
    dsimp only
    split <;> rfl
  | _ => rfl

end Exec

end Klite.Agent
