import Klite.Agent.LoopSpec

/-!
# What a restart count counts

The host of one agent life, watched: which containers have run, and which of those that ran
have stopped. RunInstance is a create and then a start.
-/

namespace Klite.Agent
open Lib

/- `stops` holds the UID of every container that ran and then stopped running, newest first. -/
structure Observed where
  host : World
  ran : List ℕ
  stops : List Uid

def runningIds (d : Docker) : List ℕ := (d.boxes.toList.filter fun e => e.2.running).map Prod.fst

-- Containers that ran before and do not now, gone ones included.
def halted (d d' : Docker) : List Uid :=
  (d.boxes.toList.filter fun e => e.2.running && !(d'.boxes[e.1]?.any Box.running)).map fun e => e.2.uid

namespace Observed

def see (s : Observed) (w : World) : Observed :=
  ⟨w, runningIds w.docker ++ s.ran, halted s.host.docker w.docker ++ s.stops⟩

/- A node on which the containers in `before` have run in earlier lives. -/
def start (w : World) (before : ℕ → Bool) : Observed where
  host := w
  ran := (w.docker.boxes.toList.filter fun e => e.2.running || before e.1).map Prod.fst
  stops := (w.docker.boxes.toList.filter fun e => !e.2.running && before e.1).map fun e => e.2.uid

end Observed

-- The texts of EnsureImage and createOptions (docker.go).
def told (c : Choice) : Op → Choice
  | .ensureImage image =>
    { c with text := (if c.landed then "pull image " else "inspect image ") ++ image ++ ": " ++ c.text }
  | .createOptions _ =>
    { c with text := ["container port ", "cpus ", "memory "].getD c.code.toNat "dns ip " ++ c.text }
  | _ => c

abbrev watched (me : Identity) : Machine Op Res where
  World := Observed
  Choice := Choice
  Move := Move
  exec := fun c op s => ((exec (told c op) op s.host).1, s.see (exec (told c op) op s.host).2)
  move := fun m s => s.see (move me m s.host)

/-! ## What a history shows -/

def raises (m : Memory) (name : String) (st : InstState) : Bool :=
  m.states[name]?.any fun st₀ => st₀.uid = st.uid && st₀.restarts ≠ st.restarts

def increments (n : String) (u : Uid) : Event Op Res Observed → Bool
  | ⟨.putState name st, _, s, _⟩ => name = n && st.uid = u && raises s.host.mem name st
  | _ => false

def atStart (u : Uid) : Trace Observed → ℕ
  | ⟨.containerStart _, _, _, s⟩ :: _ => s.stops.count u
  | _ :: h => atStart u h
  | [] => 0

/- How many had stopped at the last increment, which the agent makes as the start it counts returns. -/
def counted (n : String) (u : Uid) : Trace Observed → ℕ
  | [] => 0
  | e :: h => if increments n u e then atStart u h else counted n u h

def Exited (message : String) : Prop := ∃ rest, message = "container exited with code " ++ rest

/- The write is called for: a container of the UID has stopped since the last increment. -/
def callsFor (h : Trace Observed) (s : Observed) : Op → Prop
  | .putState name st => raises s.host.mem name st ∨ Exited st.message → counted name st.uid h < s.stops.count st.uid
  | _ => True

/- Whenever a pass lists the containers, all that are not running have run before. -/
def AllRan {me : Identity} (s : Lib.Proc (watched me) Unit) : Tick (watched me) → Prop
  | .step _ =>
    match s.prog with
    | .call .containerList _ => ∀ e ∈ s.world.host.docker.boxes.toList, e.2.running = false → e.1 ∈ s.world.ran
    | _ => True
  | .move _ => True

instance {me : Identity} (s : Lib.Proc (watched me) Unit) (l : Tick (watched me)) : Decidable (AllRan s l) := by
  unfold AllRan
  split
  · split <;> infer_instance
  · infer_instance

/-! ## Containers over time -/

-- Labels stay, and what is new has a new id.
structure Comes (d d' : Docker) : Prop where
  nextId : d.nextId ≤ d'.nextId
  back : ∀ (id : ℕ) (b' : Box), d'.boxes[id]? = some b' →
    (∃ b, d.boxes[id]? = some b ∧ b.labels = b'.labels) ∨ d.nextId ≤ id

theorem comes_shrinks {d d' : Docker} (h : Shrinks d d') : Comes d d' := by
  refine ⟨h.nextId, ?_⟩
  intro id b' hb'
  obtain ⟨b, hb, hl, -⟩ := h.back id b' hb'
  exact Or.inl ⟨b, hb, hl⟩

theorem comes_refl (d : Docker) : Comes d d := comes_shrinks (shrinks_refl d)

theorem comes_start (d : Docker) (id : ℕ) (ip : String) : Comes d (d.start id ip) := by
  refine ⟨le_rfl, ?_⟩
  intro i b' hb'
  unfold Docker.start at hb'
  rw [Docker.get_update] at hb'
  obtain ⟨b, hb, rfl⟩ := Option.map_eq_some_iff.mp hb'
  refine Or.inl ⟨b, hb, ?_⟩
  split
  · exact (start_labels ip b).symm
  · rfl

theorem comes_create (d : Docker) (inst : Instance) (h : d.taken inst.metadata.name = false) :
    Comes d (d.create inst h) := by
  refine ⟨Nat.le_succ _, ?_⟩
  intro i b' hb'
  rw [Docker.get_create] at hb'
  split at hb'
  · exact Or.inr (by omega)
  · exact Or.inl ⟨b', hb', rfl⟩

theorem comes_exec (c : Choice) (op : Op) (w : World) : Comes w.docker (exec c op w).2.docker := by
  cases hop : op.grows with
  | false => exact comes_shrinks (shrinks_exec hop c w)
  | true =>
    cases op with
    | containerCreate inst =>
      show Comes w.docker (containerCreate c inst w).2.docker
      rcases create_cases c inst w with ⟨he, -⟩ | ⟨h, he, -⟩
      · rw [he]
        exact comes_refl _
      · rw [he]
        exact comes_create w.docker inst h
    | containerStart id =>
      show Comes w.docker (containerStart c id w).2.docker
      rcases (start_cases c id w).1 with he | he
      · rw [he]
        exact comes_refl _
      · rw [he]
        exact comes_start w.docker id c.ip
    | _ => cases hop

section See
variable {s : Observed} {w : World} {id : ℕ} {b : Box}

theorem mem_ran : id ∈ (s.see w).ran ↔ (∃ b, w.docker.boxes[id]? = some b ∧ b.running = true) ∨ id ∈ s.ran := by
  show id ∈ runningIds w.docker ++ s.ran ↔ _
  rw [List.mem_append]
  refine or_congr_left ?_
  unfold runningIds
  constructor
  · intro h
    obtain ⟨⟨i, b⟩, hm, rfl⟩ := List.mem_map.mp h
    obtain ⟨hm, hr⟩ := List.mem_filter.mp hm
    exact ⟨b, Table.mem_toList.mp hm, hr⟩
  · rintro ⟨b, hb, hr⟩
    exact List.mem_map.mpr ⟨(id, b), List.mem_filter.mpr ⟨Table.mem_toList.mpr hb, hr⟩, rfl⟩

theorem count_le (s : Observed) (w : World) (u : Uid) : s.stops.count u ≤ (s.see w).stops.count u := by
  show s.stops.count u ≤ (halted _ _ ++ s.stops).count u
  rw [List.count_append]
  omega

theorem count_lt (hb : s.host.docker.boxes[id]? = some b) (hr : b.running = true)
    (hoff : ∀ b', w.docker.boxes[id]? = some b' → b'.running = false) : s.stops.count b.uid < (s.see w).stops.count b.uid := by
  have hmem : b.uid ∈ halted s.host.docker w.docker := by
    unfold halted
    refine List.mem_map.mpr ⟨(id, b), List.mem_filter.mpr ⟨Table.mem_toList.mpr hb, ?_⟩, rfl⟩
    dsimp only
    rw [hr, Bool.true_and, Bool.not_eq_true']
    cases hb' : w.docker.boxes[id]? with
    | none => rfl
    | some b' => exact hoff b' hb'
  have hpos := List.count_pos_iff.mpr hmem
  show s.stops.count b.uid < (halted _ _ ++ s.stops).count b.uid
  rw [List.count_append]
  omega

end See

/- The containers that ran and stopped have done so since the mark `c`. -/
structure Accounts (c : String → Uid → ℕ) (s : Observed) : Prop where
  older : ∀ id ∈ s.ran, id < s.host.docker.nextId
  marked : ∀ n u, c n u ≤ s.stops.count u
  stopped : ∀ (id : ℕ) (b : Box), s.host.docker.boxes[id]? = some b → b.running = false → id ∈ s.ran →
    c b.name b.uid < s.stops.count b.uid

theorem accounts_see {c : String → Uid → ℕ} {s : Observed} {w : World} (hs : Accounts c s)
    (hd : Comes s.host.docker w.docker) : Accounts c (s.see w) where
  older := by
    intro id hid
    rcases mem_ran.mp hid with ⟨b, hb, -⟩ | hid
    · exact w.docker.fresh id b hb
    · exact (hs.older id hid).trans_le hd.nextId
  marked := fun n u => (hs.marked n u).trans (count_le s w u)
  stopped := by
    intro id b' hb' hoff hid
    have hid : id ∈ s.ran := by
      refine (mem_ran.mp hid).resolve_left ?_
      rintro ⟨b, hb, hr⟩
      obtain rfl := Option.mem_unique hb hb'
      rw [hoff] at hr
      cases hr
    rcases hd.back id b' hb' with ⟨b, hb, hl⟩ | hnew
    · have hname : b.name = b'.name := congrArg Prod.fst hl
      have huid : b.uid = b'.uid := congrArg (fun x => x.2.1) hl
      rw [← hname, ← huid]
      cases hr : b.running with
      | true =>
        refine (hs.marked b.name b.uid).trans_lt (count_lt hb hr ?_)
        intro b'' hb''
        obtain rfl := Option.mem_unique hb' hb''
        exact hoff
      | false => exact (hs.stopped id b hb hr hid).trans_le (count_le s w b.uid)
    · have hlt := hs.older id hid
      omega

/-! ## Texts -/

theorem not_exited (k : ℕ) {p x : String} (h : k ≤ p.toList.length ∧ k ≤ 27 ∧
    p.toList.take k ≠ "container exited with code ".toList.take k) : ¬ Exited (p ++ x) := by
  obtain ⟨hk, hk', hne⟩ := h
  rintro ⟨rest, he⟩
  have hl : (p ++ x).toList.take k = ("container exited with code " ++ rest).toList.take k := by rw [he]
  rw [String.toList_append, String.toList_append, List.take_append_of_le_length hk,
    List.take_append_of_le_length (show k ≤ "container exited with code ".toList.length from hk')] at hl
  exact hne hl

-- The error texts the runtime gives as they are do not tell of an exit.
def Telling : Event Op Res Observed → Prop
  | ⟨.ensureImage _, .error text, _, _⟩ => ¬ Exited text
  | ⟨.createOptions _, .error text, _, _⟩ => ¬ Exited text
  | _ => True

theorem telling_event (me : Identity) (c : Choice) (op : Op) (s : Observed) : Telling ((watched me).event c op s) := by
  cases op with
  | ensureImage image =>
    unfold Machine.event watched exec verdict told
    dsimp only
    cases c.fails with
    | false => trivial
    | true =>
      show ¬ Exited ((if c.landed then "pull image " else "inspect image ") ++ image ++ ": " ++ c.text)
      rw [String.append_assoc, String.append_assoc]
      cases c.landed with
      | false => exact not_exited 1 (by decide)
      | true => exact not_exited 1 (by decide)
  | createOptions inst =>
    unfold Machine.event watched exec verdict told
    dsimp only
    cases c.fails with
    | false => trivial
    | true =>
      show ¬ Exited (["container port ", "cpus ", "memory "].getD c.code.toNat "dns ip " ++ c.text)
      rcases c.code.toNat with _ | _ | _ | n
      · exact not_exited 11 (by decide)
      · exact not_exited 2 (by decide)
      · exact not_exited 1 (by decide)
      · show ¬ Exited ("dns ip " ++ c.text)
        exact not_exited 1 (by decide)
  | _ => trivial

theorem blame_telling {node : String} {inst : Instance} {e : Event Op Res Observed} {text : String} (he : Telling e)
    (hb : blame node inst e = some text) : ¬ Exited text := by
  unfold blame at hb
  split at hb
  · cases hb
    exact he
  · cases hb
    exact he
  · cases hb
    rw [String.append_assoc]
    exact not_exited 1 (by decide)
  · cases hb
    rw [String.append_assoc, String.append_assoc]
    exact not_exited 1 (by decide)
  · cases hb
    rw [String.append_assoc, String.append_assoc]
    exact not_exited 2 (by decide)
  · cases hb
    rw [String.append_assoc, String.append_assoc]
    exact not_exited 2 (by decide)
  · cases hb
    rw [String.append_assoc, String.append_assoc]
    exact not_exited 1 (by decide)
  · cases hb

/-! ## The loop -/

def afterStart : Trace Observed → Bool
  | ⟨.containerStart _, .ok _, _, _⟩ :: _ => true
  | ⟨.probeReady _, _, _, _⟩ :: h => afterStart h
  | ⟨.inspectIP _, _, _, _⟩ :: h => afterStart h
  | _ => false

/- The container of the instance is the one that was started when `k` of its UID had stopped. -/
def Begun (inst : Instance) (k : ℕ) (s : Observed) : Prop :=
  k ≤ s.stops.count inst.metadata.uid ∧
  ∀ (id : ℕ) (b : Box), s.host.docker.boxes[id]? = some b → b.name = inst.metadata.name →
    b.uid = inst.metadata.uid ∧ (b.running = false → k < s.stops.count inst.metadata.uid)

/-- What holds at every point of a life. -/
structure Justified (h : Trace Observed) (s : Observed) : Prop where
  docker : Accounts (fun n u => counted n u h) s
  states : ∀ (n : String) (st : InstState), s.host.mem.states[n]? = some st →
    st.awaitingRestart = true ∨ Exited st.message → counted n st.uid h < s.stops.count st.uid
  shown : ∀ l, shown h = some l → ∀ ri ∈ l, ri.running = false →
    (ri.instanceName ∉ visited h ∨ ∃ inst st₀, look h = some (inst, st₀) ∧ inst.metadata.name = ri.instanceName) →
    counted ri.instanceName ri.instanceUID h < s.stops.count ri.instanceUID
  look : ∀ inst st₀, look h = some (inst, st₀) → st₀ = s.host.mem.stateFor inst
  started : ∀ inst st₀, Agent.look h = some (inst, st₀) → afterStart h = true → Begun inst (atStart inst.metadata.uid h) s
  created : ∀ inst id, createdBy h = some (inst, id) →
    ∀ b, s.host.docker.boxes[id]? = some b → b.labels = (boxOf inst).labels
  texts : ∀ e ∈ h, Telling e

section Step
variable {h h' : Trace Observed} {s : Observed} {w : World} {inst : Instance} {st st₀ : InstState}

theorem begun_see {k : ℕ} (hb : Begun inst k s) (hd : Shrinks s.host.docker w.docker) : Begun inst k (s.see w) := by
  refine ⟨hb.1.trans (count_le s w _), ?_⟩
  intro id b' hb' hn
  obtain ⟨b, hbox, hl, -⟩ := hd.back id b' hb'
  have hname : b.name = b'.name := congrArg Prod.fst hl
  have huid : b.uid = b'.uid := congrArg (fun x => x.2.1) hl
  obtain ⟨hu, hk⟩ := hb.2 id b hbox (hname.trans hn)
  refine ⟨huid.symm.trans hu, ?_⟩
  intro hoff
  cases hr : b.running with
  | true =>
    rw [← hu]
    refine (hu ▸ hb.1).trans_lt (count_lt hbox hr ?_)
    intro b'' hb''
    obtain rfl := Option.mem_unique hb' hb''
    exact hoff
  | false => exact (hk hr).trans_le (count_le s w _)

/- A step that writes no state, and that the history shows as none of the calls which the counts, the
listing and the look depend on. What it starts and creates is the caller's to show. -/
theorem justified_next (hj : Justified h s) (hd : Comes s.host.docker w.docker) (hst : w.mem.states = s.host.mem.states)
    (hc : ∀ n u, counted n u h' = counted n u h) (hsh : Agent.shown h' = Agent.shown h) (hv : visited h' = visited h)
    (hl : Agent.look h' = Agent.look h) (hstart : ∀ inst st₀, Agent.look h = some (inst, st₀) → afterStart h' = true →
      Begun inst (atStart inst.metadata.uid h') (s.see w))
    (hcr : ∀ inst id, createdBy h' = some (inst, id) → ∀ b, w.docker.boxes[id]? = some b → b.labels = (boxOf inst).labels)
    (ht : ∀ e ∈ h', Telling e) : Justified h' (s.see w) where
  docker := by
    have hacc := accounts_see hj.docker hd
    exact ⟨hacc.older, fun n u => (hc n u).symm ▸ hacc.marked n u, fun id b hb hr hid => (hc _ _).symm ▸ hacc.stopped id b hb hr hid⟩
  states := by
    intro n st hs hx
    rw [hc]
    exact (hj.states n st (hst ▸ hs) hx).trans_le (count_le s w _)
  shown := by
    intro l hs ri hri hr hx
    rw [hsh] at hs
    rw [hv, hl] at hx
    rw [hc]
    exact (hj.shown l hs ri hri hr hx).trans_le (count_le s w _)
  look := by
    intro inst st₀ hlook
    rw [hl] at hlook
    exact (hj.look inst st₀ hlook).trans (stateFor_states hst inst).symm
  started inst st₀ hlook := hstart inst st₀ (hl ▸ hlook)
  created := hcr
  texts := ht

theorem justified_see (hj : Justified h s) (hd : Shrinks s.host.docker w.docker) (hst : w.mem.states = s.host.mem.states)
    (hc : ∀ n u, counted n u h' = counted n u h) (hsh : Agent.shown h' = Agent.shown h) (hv : visited h' = visited h)
    (hl : Agent.look h' = Agent.look h)
    (ha : afterStart h' = true → afterStart h = true ∧ ∀ u, atStart u h' = atStart u h)
    (hcr : ∀ x, createdBy h' = some x → createdBy h = some x) (ht : ∀ e ∈ h', Telling e) : Justified h' (s.see w) := by
  refine justified_next hj (comes_shrinks hd) hst hc hsh hv hl ?_ ?_ ht
  · intro inst st₀ hlook hafter
    obtain ⟨hafter, hat⟩ := ha hafter
    rw [hat]
    exact begun_see (hj.started inst st₀ hlook hafter) hd
  · intro inst id hx b hb
    obtain ⟨b₀, hb₀, hlab, -⟩ := hd.back id b hb
    rw [← hlab]
    exact hj.created inst id (hcr _ hx) b₀ hb₀

theorem not_exited_empty : ¬ Exited "" := by
  rintro ⟨rest, hx⟩
  have hlen := congrArg (fun m => m.toList.length) hx
  simp [String.toList_append] at hlen

section Looked
variable (hj : Justified h s) (hl : Agent.look h = some (inst, st₀))
include hj hl

theorem look_evidence (hx : st₀.awaitingRestart = true ∨ Exited st₀.message) :
    counted inst.metadata.name inst.metadata.uid h < s.stops.count inst.metadata.uid := by
  obtain rfl := hj.look inst st₀ hl
  have hfresh : ∀ st : InstState, st.awaitingRestart = false → st.message = "" →
      ¬ (st.awaitingRestart = true ∨ Exited st.message) := by
    rintro st ha hm (hx | hx)
    · rw [ha] at hx
      cases hx
    · rw [hm] at hx
      exact not_exited_empty hx
  cases hs : s.host.mem.states[inst.metadata.name]? with
  | none =>
    refine absurd hx (hfresh _ ?_ ?_) <;> unfold Memory.stateFor <;> rw [hs]
  | some st =>
    by_cases hu : st.uid = inst.metadata.uid
    · rw [stateFor_some hs hu] at hx
      exact hu ▸ hj.states _ st hs hx
    · refine absurd hx (hfresh _ ?_ ?_) <;> unfold Memory.stateFor <;> rw [hs] <;> simp only [if_neg hu]

theorem raises_restarts (hr : raises s.host.mem inst.metadata.name st = true) (hu : st.uid = inst.metadata.uid) :
    st₀.restarts ≠ st.restarts := by
  obtain rfl := hj.look inst st₀ hl
  unfold raises at hr
  cases hs : s.host.mem.states[inst.metadata.name]? with
  | none =>
    rw [hs] at hr
    cases hr
  | some x =>
    rw [hs] at hr
    have hx : (x.uid = st.uid ∧ x.restarts ≠ st.restarts) := by simpa using hr
    rw [stateFor_some hs (hx.1.trans hu)]
    exact hx.2

/- What a write as the loop makes it says, and on what grounds. -/
structure Grounds (h : Trace Observed) (s : Observed) (inst : Instance) (st : InstState) : Prop where
  uid : st.uid = inst.metadata.uid
  flag : st.awaitingRestart = true ∨ Exited st.message →
    counted inst.metadata.name inst.metadata.uid h < s.stops.count inst.metadata.uid
  raise : raises s.host.mem inst.metadata.name st = true →
    counted inst.metadata.name inst.metadata.uid h < s.stops.count inst.metadata.uid ∧
    Begun inst (atStart inst.metadata.uid h) s ∧ st.awaitingRestart = false ∧ ¬ Exited st.message

theorem shown_evidence {l : Trace Observed} {ri : RunningInstance} (hsh : Agent.shown h = Agent.shown l)
    (hm : ShownFor l inst ri) (hr : ri.running = false) :
    counted inst.metadata.name inst.metadata.uid h < s.stops.count inst.metadata.uid := by
  obtain ⟨cs, hcs, hmem, hlab⟩ := hm
  have hname : ri.instanceName = inst.metadata.name := congrArg Prod.fst hlab
  have huid : ri.instanceUID = inst.metadata.uid := congrArg (fun x => x.2.1) hlab
  have hx := hj.shown cs (hsh.trans hcs) ri hmem hr (Or.inr ⟨inst, st₀, hl, hname.symm⟩)
  rw [hname, huid] at hx
  exact hx

theorem grounds_same (hu : st.uid = inst.metadata.uid) (hr : st.restarts = st₀.restarts)
    (hf : st.awaitingRestart = true ∨ Exited st.message →
      counted inst.metadata.name inst.metadata.uid h < s.stops.count inst.metadata.uid) :
    Grounds h s inst st :=
  ⟨hu, hf, fun hraise => absurd hr.symm (raises_restarts hj hl hraise hu)⟩

theorem written_grounds {node : String} (hw : Written node inst st₀ h st) : Grounds h s inst st := by
  have hu : st₀.uid = inst.metadata.uid := hj.look inst st₀ hl ▸ stateFor_uid _ _
  cases hw with
  | gated t e l w w' he hd => exact grounds_same hj hl hu rfl fun hx => look_evidence hj hl hx
  | failed t e text l w w' he hd =>
    refine grounds_same hj hl hu rfl ?_
    rintro (ha | hx)
    · exact look_evidence hj hl (Or.inl ha)
    · exact absurd hx (blame_telling (hj.texts e (List.mem_cons_of_mem _ List.mem_cons_self)) he)
  | crashed t ri l w w' w₁ w₁' hm hr ha hd =>
    exact grounds_same hj hl hu rfl fun _ => shown_evidence hj hl rfl hm hr
  | started id ip phase l l' w w' w₁ w₁' w₂ w₂' hp hd =>
    refine ⟨hu, ?_, ?_⟩
    · rintro (ha | hx)
      · cases ha
      · exact absurd hx not_exited_empty
    · intro hraise
      have hne : st₀.restarts ≠ if st₀.awaitingRestart then int32 (st₀.restarts + 1) else st₀.restarts :=
        raises_restarts hj hl hraise hu
      have ha : st₀.awaitingRestart = true := by
        by_contra ha
        exact hne (if_neg ha).symm
      have hafter : afterStart (⟨.inspectIP id, ip, w, w'⟩ :: l') = true := by
        cases hp with
        | plain => rfl
        | probed => rfl
      exact ⟨look_evidence hj hl (Or.inl ha), hj.started inst st₀ hl hafter, rfl, not_exited_empty⟩
  | running ri phase l l' w w' hm hr hp hd =>
    refine grounds_same hj hl hu rfl ?_
    rintro (ha | hx)
    · cases ha
    · exact absurd hx not_exited_empty
  | drained ri l w w' hm hd =>
    unfold Agent.drained
    cases ri with
    | none =>
      refine grounds_same hj hl hu rfl ?_
      rintro (ha | hx)
      · exact look_evidence hj hl (Or.inl ha)
      · have hgone : "container gone while draining" = "container gone " ++ "while draining" := by decide
        have hx : Exited "container gone while draining" := hx
        rw [hgone] at hx
        exact absurd hx (not_exited 11 (by decide))
    | some ri =>
      dsimp only
      split
      · refine grounds_same hj hl hu rfl ?_
        rintro (ha | hx)
        · exact look_evidence hj hl (Or.inl ha)
        · exact absurd hx not_exited_empty
      · rename_i hr
        exact grounds_same hj hl hu rfl fun _ => shown_evidence hj hl rfl (hm ri rfl) (Bool.eq_false_iff.mpr hr)

end Looked

theorem counted_put (n : String) (u : Uid) (name : String) (s' : Observed) :
    counted n u (⟨.putState name st, (), s, s'⟩ :: h) =
      if name = n ∧ st.uid = u ∧ raises s.host.mem name st = true then atStart u h else counted n u h := by
  show (if (decide (name = n) && decide (st.uid = u) && raises s.host.mem name st) = true then _ else _) = _
  simp only [Bool.and_eq_true, decide_eq_true_eq, and_assoc]

theorem accounts_put {s' : Observed} (hj : Justified h s) (hg : Grounds h s inst st) :
    Accounts (fun n u => counted n u (⟨.putState inst.metadata.name st, (), s, s'⟩ :: h)) s where
  older := hj.docker.older
  marked := by
    intro n u
    rw [counted_put]
    split
    · rename_i hx
      obtain ⟨rfl, rfl, hr⟩ := hx
      rw [hg.uid]
      exact (hg.raise hr).2.1.1
    · exact hj.docker.marked n u
  stopped := by
    intro id b hb hoff hid
    rw [counted_put]
    split
    · rename_i hx
      obtain ⟨hn, hu, hr⟩ := hx
      rw [← hu, hg.uid]
      exact ((hg.raise hr).2.1.2 id b hb hn.symm).2 hoff
    · exact hj.docker.stopped id b hb hoff hid

theorem justified_put (hj : Justified h s) (hl : Agent.look h = some (inst, st₀)) (hg : Grounds h s inst st) :
    let w := { s.host with mem := s.host.mem.putState inst.metadata.name st }
    Justified (⟨.putState inst.metadata.name st, (), s, s.see w⟩ :: h) (s.see w) := by
  intro w
  refine ⟨accounts_see (accounts_put hj hg) (comes_refl _), ?_, ?_, ?_, ?_, ?_, ?_⟩
  · intro n st' hst' hx
    have hst' : (s.host.mem.states.insert inst.metadata.name st)[n]? = some st' := hst'
    refine lt_of_lt_of_le ?_ (count_le s w st'.uid)
    rw [counted_put]
    rw [Table.get_insert] at hst'
    split at hst'
    · rename_i hn
      cases hst'
      subst hn
      split
      · rename_i hr
        have hraise := hg.raise hr.2.2
        rcases hx with ha | hx
        · rw [hraise.2.2.1] at ha
          cases ha
        · exact absurd hx hraise.2.2.2
      · rw [hg.uid]
        exact hg.flag hx
    · rename_i hn
      rw [if_neg (fun h => hn h.1)]
      exact hj.states n st' hst' hx
  · intro l hsh ri hri hr hx
    have hname : inst.metadata.name ≠ ri.instanceName := by
      rintro hn
      rcases hx with hx | ⟨i, x, hlook, -⟩
      · have hmem : inst.metadata.name ∈ visited h := look_visited hl
        exact hx (hn ▸ hmem)
      · cases hlook
    refine lt_of_lt_of_le ?_ (count_le s w _)
    rw [counted_put, if_neg (fun h => hname h.1)]
    refine hj.shown l hsh ri hri hr (Or.inl ?_)
    rcases hx with hx | ⟨i, x, hlook, -⟩
    · exact hx
    · cases hlook
  · rintro i x ⟨⟩
  · rintro i x ⟨⟩
  · rintro i x ⟨⟩
  · exact List.forall_mem_cons.mpr ⟨trivial, hj.texts⟩

theorem justified_look (hj : Justified h s) (hv : inst.metadata.name ∉ visited h) :
    Justified (⟨.stateFor inst, s.host.mem.stateFor inst, s, s.see s.host⟩ :: h) (s.see s.host) := by
  refine ⟨accounts_see hj.docker (comes_refl _), ?_, ?_, ?_, ?_, ?_, ?_⟩
  · exact fun n st hst hx => (hj.states n st hst hx).trans_le (count_le s _ _)
  · intro l hsh ri hri hr hx
    refine (hj.shown l hsh ri hri hr (Or.inl ?_)).trans_le (count_le s _ _)
    rcases hx with hx | ⟨i, x, hlook, hn⟩
    · exact fun hmem => hx (List.mem_cons_of_mem _ hmem)
    · cases hlook
      exact hn ▸ hv
  · rintro i x ⟨⟩
    rfl
  · rintro i x - ⟨⟩
  · rintro i x ⟨⟩
  · exact List.forall_mem_cons.mpr ⟨trivial, hj.texts⟩

theorem justified_copy {D : Desired} (hj : Justified h s) :
    Justified (⟨.snapshotDesired, D, s, s.see s.host⟩ :: h) (s.see s.host) := by
  refine ⟨accounts_see hj.docker (comes_refl _), ?_, ?_, ?_, ?_, ?_, ?_⟩
  · exact fun n st hst hx => (hj.states n st hst hx).trans_le (count_le s _ _)
  · rintro l ⟨⟩
  · rintro i x ⟨⟩
  · rintro i x ⟨⟩
  · rintro i x ⟨⟩
  · exact List.forall_mem_cons.mpr ⟨trivial, hj.texts⟩

/- The listing is where the condition is used. -/
theorem justified_list (hj : Justified h s)
    (hran : ∀ (id : ℕ) (b : Box), s.host.docker.boxes[id]? = some b → b.running = false → id ∈ s.ran) :
    Justified (⟨.containerList, .ok s.host.docker.list, s, s.see s.host⟩ :: h) (s.see s.host) := by
  refine ⟨accounts_see hj.docker (comes_refl _), ?_, ?_, hj.look, ?_, ?_, ?_⟩
  · exact fun n st hst hx => (hj.states n st hst hx).trans_le (count_le s _ _)
  · rintro l ⟨⟩ ri hri hr -
    obtain ⟨id, b, hb, rfl⟩ := Docker.mem_list.mp hri
    exact (hj.docker.stopped id b hb hr (hran id b hb hr)).trans_le (count_le s _ _)
  · rintro i x - ⟨⟩
  · rintro i x ⟨⟩
  · exact List.forall_mem_cons.mpr ⟨trivial, hj.texts⟩

theorem justified_prune {D : Desired} (hj : Justified h s) (hl : Agent.look h = none) :
    let w := { s.host with mem := s.host.mem.pruneState D }
    Justified (⟨.pruneState D, (), s, s.see w⟩ :: h) (s.see w) := by
  intro w
  refine ⟨accounts_see hj.docker (comes_refl _), ?_, ?_, ?_, ?_, ?_, ?_⟩
  · intro n st hst hx
    have hst : (s.host.mem.states.filter fun name _ => D.map.contains name)[n]? = some st := hst
    rw [Table.get_filter] at hst
    exact (hj.states n st (Option.filter_eq_some_iff.mp hst).1 hx).trans_le (count_le s _ _)
  · exact fun l hsh ri hri hr hx => (hj.shown l hsh ri hri hr hx).trans_le (count_le s _ _)
  · intro i x hlook
    rw [show Agent.look (_ :: h) = Agent.look h from rfl, hl] at hlook
    cases hlook
  · rintro i x - ⟨⟩
  · rintro i x ⟨⟩
  · exact List.forall_mem_cons.mpr ⟨trivial, hj.texts⟩

theorem justified_create {c : Choice} {r : Created} (hj : Justified h s) (hx : containerCreate c inst s.host = (r, w)) :
    Justified (⟨.containerCreate inst, r, s, s.see w⟩ :: h) (s.see w) := by
  have hr : (containerCreate c inst s.host).1 = r := congrArg Prod.fst hx
  have hw : (containerCreate c inst s.host).2 = w := congrArg Prod.snd hx
  have hst : w.mem.states = s.host.mem.states := by
    rw [← hw]
    exact exec_states (show Op.writes (.containerCreate inst) = false from rfl) c s.host
  refine justified_next hj (hw ▸ comes_exec c (.containerCreate inst) s.host) hst (fun _ _ => rfl) rfl rfl rfl
    (by rintro i x - ⟨⟩) ?_ (List.forall_mem_cons.mpr ⟨trivial, hj.texts⟩)
  intro i id hcr b hb
  cases r with
  | created id' =>
    cases hcr
    exact create_labels hr (hw ▸ hb)
  | conflict text => cases hcr
  | failed text => cases hcr

theorem begun_start {c : Choice} {id : ℕ} (hx : containerStart c id s.host = (.ok (), w))
    (hcr : ∀ b, s.host.docker.boxes[id]? = some b → b.labels = (boxOf inst).labels) :
    Begun inst ((s.see w).stops.count inst.metadata.uid) (s.see w) := by
  obtain ⟨b, hb, hd⟩ := start_ok hx
  have hnew : w.docker.boxes[id]? = some (b.start c.ip) := by
    rw [hd]
    unfold Docker.start
    rw [Docker.get_update, hb, Option.map_some, if_pos rfl]
  have hlab : (b.start c.ip).labels = (boxOf inst).labels := (start_labels c.ip b).trans (hcr b hb)
  refine ⟨le_rfl, ?_⟩
  intro i b' hb' hn
  obtain rfl := w.docker.named i id b' _ hb' hnew (hn.trans (congrArg Prod.fst hlab).symm)
  obtain rfl := Option.mem_unique hnew hb'
  refine ⟨congrArg (fun x => x.2.1) hlab, ?_⟩
  intro hoff
  rw [start_running] at hoff
  cases hoff

theorem justified_start {c : Choice} {id : ℕ} {r : Except String Unit} (hj : Justified h s)
    (hl : Agent.look h = some (inst, st₀)) (hcr : createdBy h = some (inst, id))
    (hx : containerStart c id s.host = (r, w)) : Justified (⟨.containerStart id, r, s, s.see w⟩ :: h) (s.see w) := by
  have hw : (containerStart c id s.host).2 = w := congrArg Prod.snd hx
  have hst : w.mem.states = s.host.mem.states := by
    rw [← hw]
    exact exec_states (show Op.writes (.containerStart id) = false from rfl) c s.host
  refine justified_next hj (hw ▸ comes_exec c (.containerStart id) s.host) hst (fun _ _ => rfl) rfl rfl rfl ?_
    (by rintro i x ⟨⟩) (List.forall_mem_cons.mpr ⟨trivial, hj.texts⟩)
  intro i x hlook hafter
  rw [hl] at hlook
  cases hlook
  cases r with
  | error text => cases hafter
  | ok _ => exact begun_start hx (hj.created inst id hcr)

theorem justified_move (me : Identity) (m : Move) (hj : Justified h s) : Justified h (s.see (move me m s.host)) :=
  justified_see hj (shrinks_move me m s.host) (move_states me m s.host) (fun _ _ => rfl) rfl rfl rfl
    (fun ha => ⟨ha, fun _ => rfl⟩) (fun _ hx => hx) hj.texts

theorem justified_call {me : Identity} {op : Op} (c : Choice) (hs : loopSpec me.node h op) (hj : Justified h s)
    (hran : op = .containerList →
      ∀ (id : ℕ) (b : Box), s.host.docker.boxes[id]? = some b → b.running = false → id ∈ s.ran) :
    Justified ((watched me).event c op s :: h) ((watched me).exec c op s).2 := by
  have ht : ∀ e ∈ (watched me).event c op s :: h, Telling e :=
    List.forall_mem_cons.mpr ⟨telling_event me c op s, hj.texts⟩
  cases op with
  | snapshotDesired => exact justified_copy hj
  | stateFor inst => exact justified_look hj hs.2.1
  | putState name st =>
    obtain ⟨inst, st₀, hl, rfl, hw⟩ := hs
    exact justified_put hj hl (written_grounds hj hl hw)
  | pruneState D => exact justified_prune hj hs.1
  | containerCreate inst => exact justified_create (c := c) hj rfl
  | containerStart id =>
    obtain ⟨inst, st₀, w₁, w₁', l, hl, rfl⟩ := hs
    exact justified_start (c := c) hj hl rfl rfl
  | containerList =>
    cases hf : c.fails with
    | false =>
      have he : (watched me).event c .containerList s = ⟨.containerList, .ok s.host.docker.list, s, s.see s.host⟩ := by
        simp [Machine.event, exec, told, hf]
      rw [he]
      exact justified_list hj (hran rfl)
    | true =>
      have he : (watched me).event c .containerList s = ⟨.containerList, .error c.text, s, s.see s.host⟩ := by
        simp [Machine.event, exec, told, hf]
      rw [he] at ht ⊢
      exact justified_see hj (shrinks_refl _) rfl (fun _ _ => rfl) rfl rfl rfl (by rintro ⟨⟩) (by rintro x ⟨⟩) ht
  | probeReady name =>
    exact justified_see hj (shrinks_refl _) rfl (fun _ _ => rfl) rfl rfl rfl (fun ha => ⟨ha, fun _ => rfl⟩)
      (by rintro x ⟨⟩) ht
  | inspectIP id =>
    exact justified_see hj (shrinks_refl _) rfl (fun _ _ => rfl) rfl rfl rfl (fun ha => ⟨ha, fun _ => rfl⟩)
      (by rintro x ⟨⟩) ht
  | _ =>
    exact justified_see hj (shrinks_exec rfl _ s.host) (exec_states rfl _ s.host) (fun _ _ => rfl) rfl rfl rfl
      (by rintro ⟨⟩) (by rintro x ⟨⟩) ht

theorem justified_start_life (hw : w.mem.states = ∅) (before : ℕ → Bool) : Justified [] (Observed.start w before) := by
  refine ⟨⟨?_, ?_, ?_⟩, ?_, ?_, ?_, ?_, ?_, ?_⟩
  · intro id hid
    obtain ⟨⟨i, b⟩, hm, rfl⟩ := List.mem_map.mp hid
    exact w.docker.fresh i b (Table.mem_toList.mp (List.mem_filter.mp hm).1)
  · exact fun n u => Nat.zero_le _
  · intro id b hb hoff hid
    obtain ⟨⟨i, b'⟩, hm, rfl⟩ := List.mem_map.mp hid
    obtain ⟨hm, hx⟩ := List.mem_filter.mp hm
    obtain rfl := Option.some.inj (hb.symm.trans (Table.mem_toList.mp hm))
    refine List.count_pos_iff.mpr (List.mem_map.mpr ⟨(i, b), List.mem_filter.mpr ⟨hm, ?_⟩, rfl⟩)
    dsimp only at hx ⊢
    rw [hoff, Bool.false_or] at hx
    rw [hoff, hx]
    rfl
  · intro n st hst
    have hst : w.mem.states[n]? = some st := hst
    rw [hw, Std.ExtTreeMap.getElem?_empty] at hst
    cases hst
  · rintro l ⟨⟩
  · rintro i x ⟨⟩
  · rintro i x ⟨⟩
  · rintro i x ⟨⟩
  · exact fun e he => absurd he List.not_mem_nil

end Step

/-- In every run of one agent life in which each listing shows only containers that are running or
have run: every write that raises a restart count, or says that a container exited, comes after a
container of the UID that ran has stopped since the previous increment. -/
theorem restart_counted (me : Identity) (ps : List Pass) (w : World) (hw : w.mem.states = ∅) (before : ℕ → Bool)
    (ls : List (Tick (watched me)))
    (hl : Each Proc.next AllRan ((reconcileLoop me.node ps).start (Observed.start w before)) ls)
    (e : Event Op Res Observed) (h : Trace Observed)
    (he : e :: h <:+ (runs Proc.next ((reconcileLoop me.node ps).start (M := watched me) (Observed.start w before)) ls).hist)
    (name : String) (st : InstState) (hwr : wrote e = some (name, st))
    (hx : raises e.pre.host.mem name st = true ∨ Exited st.message) :
    counted name st.uid h < e.pre.stops.count st.uid := by
  have hc := loop_calls (P := callsFor) (C := AllRan) (justified_start_life hw before)
    (fun s m _ hj => justified_move me m hj) ?_ ?_ hl he
  · rw [op_wrote hwr] at hc
    exact hc hx
  · intro s op k c hk hran hs hj
    refine justified_call c hs hj ?_
    rintro rfl id b hb hoff
    unfold AllRan at hran
    rw [hk] at hran
    exact hran (id, b) (Table.mem_toList.mpr hb) hoff
  · intro h s op hs hj
    cases op with
    | putState name st =>
      obtain ⟨inst, st₀, hlook, rfl, hw⟩ := hs
      have hg := written_grounds hj hlook hw
      show _ → counted inst.metadata.name st.uid h < _
      rw [hg.uid]
      rintro (hr | hx)
      · exact (hg.raise hr).1
      · exact hg.flag (Or.inr hx)
    | _ => trivial

def nodeB : Identity := ⟨"b", .node "b"⟩

def apiInstance : Instance := { metadata := { name := "api-1", uid := 4 } }

def emptyNode : Observed :=
  Observed.start { mem := { desired := desiredOf [apiInstance], haveSnapshot := true }, docker := Docker.none } fun _ => false

def threePasses : Prog Op Res Unit := reconcileLoop nodeB.node (List.replicate 3 ⟨id, List.Perm.refl⟩)

def calls (n : ℕ) : List (Tick (watched nodeB)) := List.replicate n (.step ({} : Choice))

/- The start of the first container fails; a second later a pass lists it, and two seconds later it
is removed and another one runs. -/
def startFails : List (Tick (watched nodeB)) :=
  calls 8 ++ [.step ({ fails := true, text := "port is already allocated" } : Choice)] ++ calls 3 ++
  [.move (.tick 1000000000)] ++ calls 7 ++ [.move (.tick 2000000000)] ++ calls 13

/-- The first container that ever runs counts as a restart, and its instance was reported as exited. -/
theorem never_started_counts :
    let s := runs Proc.next (threePasses.start (M := watched nodeB) emptyNode) startFails
    (∃ e ∈ s.hist, ∃ st, wrote e = some ("api-1", st) ∧ raises e.pre.host.mem "api-1" st = true ∧ e.pre.stops = []) ∧
    ∃ e ∈ s.hist, ∃ st, wrote e = some ("api-1", st) ∧ Exited st.message ∧ e.pre.stops = [] := by
  intro s
  have hraise : s.hist.any (fun e => (wrote e).any fun x =>
      x.1 = "api-1" && raises e.pre.host.mem "api-1" x.2 && e.pre.stops.isEmpty) = true := by decide +kernel
  have hexit : s.hist.any (fun e => (wrote e).any fun x =>
      x.1 = "api-1" && x.2.message = "container exited with code " ++ "0" && e.pre.stops.isEmpty) = true := by decide +kernel
  constructor
  · obtain ⟨e, he, hx⟩ := List.any_eq_true.mp hraise
    obtain ⟨name, st, hwr, hx⟩ := wrote_any hx
    simp only [Bool.and_eq_true, decide_eq_true_eq, List.isEmpty_iff] at hx
    obtain ⟨⟨rfl, hr⟩, hs⟩ := hx
    exact ⟨e, he, st, hwr, hr, hs⟩
  · obtain ⟨e, he, hx⟩ := List.any_eq_true.mp hexit
    obtain ⟨name, st, hwr, hx⟩ := wrote_any hx
    simp only [Bool.and_eq_true, decide_eq_true_eq, List.isEmpty_iff] at hx
    obtain ⟨⟨rfl, hm⟩, hs⟩ := hx
    exact ⟨e, he, st, hwr, ⟨"0", hm⟩, hs⟩

/- The container runs, exits, and is replaced a second after a pass has noticed. -/
def exitsOnce : List (Tick (watched nodeB)) :=
  calls 12 ++ [.move (.exit 0 1)] ++ calls 7 ++ [.move (.tick 1000000000)] ++ calls 13

/-- A crash is counted once it has happened. -/
theorem restart_counted_crash :
    let s := runs Proc.next (threePasses.start (M := watched nodeB) emptyNode) exitsOnce
    ∃ e h st, s.hist = e :: h ∧ wrote e = some ("api-1", st) ∧ raises e.pre.host.mem "api-1" st = true ∧
      counted "api-1" st.uid h < e.pre.stops.count st.uid := by
  intro s
  have hraise : s.hist.head?.any (fun e => (wrote e).any fun x =>
      x.1 = "api-1" && raises e.pre.host.mem "api-1" x.2) = true := by decide +kernel
  have hran : Each Proc.next AllRan (threePasses.start (M := watched nodeB) emptyNode) exitsOnce := by decide +kernel
  obtain ⟨e, h, name, st, hs, hwr, hx⟩ := newest_wrote hraise
  simp only [Bool.and_eq_true, decide_eq_true_eq] at hx
  obtain ⟨rfl, hr⟩ := hx
  refine ⟨e, h, st, hs, hwr, hr, ?_⟩
  exact restart_counted nodeB _ _ rfl _ exitsOnce hran e h (hs ▸ List.suffix_refl _) "api-1" st hwr (Or.inl hr)

end Klite.Agent
