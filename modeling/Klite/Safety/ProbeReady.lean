import Klite.Agent.LoopSpec
import Klite.Net.Prober

/-!
# What READY says of a container

A node with its agent, its containers and klite-net.
-/

namespace Klite.Agent
open Lib Netd

-- netconf.go:150
def Memory.updateProbes (m : Memory) (probes : List ProbeState) : Memory :=
  { m with probeReady := Table.fill ∅ (probes.map fun p => (p.inst, p.ready)) }

def probePort (inst : Instance) : Int := inst.spec.container.readinessProbe.getD 0

/- `answer` is a reply to `Probes` on its way. `latest` holds the last container started under a name,
with its UID; `passed` the containers that were running when a dial of their address went through,
with the port dialled. -/
structure Site where
  host : World
  daemon : Daemon := {}
  prober : Prober := {}
  answer : Option (List ProbeState) := none
  latest : Std.ExtTreeMap String (ℕ × Uid) := ∅
  passed : List (ℕ × Int) := []

inductive Happening where
  | snapshot (ds : NodeSnapshot)
  | exit (id : ℕ) (code : Int)
  | vanish (id : ℕ)
  | tick (d : ℕ)
  | push (net : NetDesired)
  | beginSweep
  | dialed (i : ℕ) (ready : Bool)
  | endSweep
  | cancel
  | restart
  | ask
  | tell

namespace Site
variable (s : Site)

def start (docker : Docker) (daemon : Daemon) (prober : Prober) (passed : List (ℕ × Int)) : Site where
  host := { docker := docker }
  daemon := daemon
  prober := prober
  latest := Table.fill ∅ ((docker.boxes.toList.filter fun e => e.2.running).map fun e => (e.2.name, (e.1, e.2.uid)))
  passed := passed

def startedAt (id : ℕ) (d : Docker) : Std.ExtTreeMap String (ℕ × Uid) :=
  match d.boxes[id]? with
  | some b => if b.running then s.latest.insert b.name (id, b.uid) else s.latest
  | none => s.latest

def answered (op : Op) (w : World) : Site :=
  match op with
  | .containerStart id => { s with host := w, latest := s.startedAt id w.docker }
  | _ => { s with host := w }

def reached : Option NetProbe → List (ℕ × Int)
  | some t => (s.host.docker.boxes.toList.filter fun e => e.2.running && e.2.ip = t.ip).map fun e => (e.1, t.port)
  | none => []

def happen : Happening → Site
  | .snapshot ds => { s with host := { s.host with mem := s.host.mem.applySnapshot ds } }
  | .exit id code => { s with host := { s.host with docker := s.host.docker.stop id code } }
  | .vanish id => { s with host := { s.host with docker := s.host.docker.remove id } }
  | .tick d => { s with host := { s.host with now := s.host.now + d } }
  | .push net => { s with daemon := (s.daemon.applyConfig net).2 }
  | .beginSweep => { s with prober := s.prober.beginSweep s.daemon.cfg }
  | .dialed i true =>
    { s with prober := s.prober.dialed i true, passed := s.reached (s.prober.dialing i) ++ s.passed }
  | .dialed i false => { s with prober := s.prober.dialed i false }
  | .endSweep => { s with prober := s.prober.endSweep }
  | .cancel => { s with prober := s.prober.cancel }
  | .restart => { s with daemon := {}, prober := {} }
  | .ask => { s with answer := some s.prober.snapshot }
  | .tell =>
    match s.answer with
    | some probes => { s with host := { s.host with mem := s.host.mem.updateProbes probes }, answer := none }
    | none => s

def positive (name : String) : Bool :=
  s.host.mem.probeReady.getD name false ||
    (s.prober.verdicts ++ s.answer.getD []).any fun v => v.inst = name && v.ready

end Site

abbrev probed : Machine Op Res where
  World := Site
  Choice := Choice
  Move := Happening
  exec := fun c op s => ((exec c op s.host).1, s.answered op (exec c op s.host).2)
  move := fun m s => s.happen m

/- `P` gives the readiness port of an instance by name and UID. When a container is started nothing
on the node calls its instance ready, and a dial goes through only to the running container of the
instance it is for, and on that port if it has one. -/
def Attributed (P : String → Uid → Int) (s : Lib.Proc probed Unit) : Tick probed → Prop
  | .step _ =>
    match s.prog with
    | .call (.containerStart id) _ => ∀ b ∈ s.world.host.docker.boxes[id]?, s.world.positive b.name = false
    | _ => True
  | .move (.snapshot ds) => ∀ inst ∈ ds.instances, probePort inst = P inst.metadata.name inst.metadata.uid
  | .move (.dialed i true) => ∀ t ∈ s.world.prober.dialing i, ∃ e ∈ s.world.host.docker.boxes.toList,
      e.2.running = true ∧ e.2.name = t.inst ∧ e.2.ip = t.ip ∧ (0 < P e.2.name e.2.uid → t.port = P e.2.name e.2.uid)
  | .move _ => True

instance (P : String → Uid → Int) (s : Lib.Proc probed Unit) (l : Tick probed) : Decidable (Attributed P s l) := by
  unfold Attributed
  split
  · split <;> infer_instance
  · infer_instance
  · infer_instance
  · infer_instance

section Facts
variable {P : String → Uid → Int} {s s' : Site} {n : String}

theorem positive_iff : s.positive n = true ↔
    s.host.mem.probeReady[n]? = some true ∨ ∃ v ∈ s.prober.verdicts ++ s.answer.getD [], v.inst = n ∧ v.ready = true := by
  unfold Site.positive
  rw [Bool.or_eq_true, List.any_eq_true]
  simp only [Bool.and_eq_true, decide_eq_true_eq]
  refine or_congr_left ?_
  rw [Std.ExtTreeMap.getD_eq_getD_getElem?]
  cases s.host.mem.probeReady[n]? with
  | none => simp
  | some b => simp

theorem positive_exec (c : Choice) (op : Op) (s : Site) (n : String) :
    Site.positive (probed.exec c op s).2 n = s.positive n := by
  have hp := exec_probeReady c op s.host
  cases op with
  | _ =>
    unfold Site.positive
    exact congrArg (fun m : Std.ExtTreeMap String Bool => m.getD n false || _) hp

def Site.Proven (s : Site) (P : String → Uid → Int) (n : String) : Prop :=
  ∀ (id : ℕ) (u : Uid), s.latest[n]? = some (id, u) → 0 < P n u → (id, P n u) ∈ s.passed

theorem proven_mono (h : s.Proven P n) (hl : s'.latest[n]? = s.latest[n]?) (hp : ∀ x ∈ s.passed, x ∈ s'.passed) :
    s'.Proven P n :=
  fun id u hx hport => hp _ (h id u (hl ▸ hx) hport)

theorem mem_reached {t : NetProbe} {id : ℕ} {b : Box} (hb : s.host.docker.boxes[id]? = some b) (hr : b.running = true)
    (hip : b.ip = t.ip) : (id, t.port) ∈ s.reached (some t) := by
  refine List.mem_map.mpr ⟨(id, b), List.mem_filter.mpr ⟨Table.mem_toList.mpr hb, ?_⟩, rfl⟩
  simp [hr, hip]

def Backed (P : String → Uid → Int) (s : Site) (n : String) (st : InstState) : Prop :=
  st.phase = .ready → 0 < P n st.uid → ∃ id, st.containerID = some id ∧ (id, P n st.uid) ∈ s.passed

def Ported (P : String → Uid → Int) (D : Desired) : Prop :=
  ∀ (n : String) (inst : Instance), D.map[n]? = some inst → probePort inst = P inst.metadata.name inst.metadata.uid

end Facts

/-! ## What the history shows -/

def justLooked : Trace Site → Bool
  | ⟨.stateFor _, _, _, _⟩ :: _ => true
  | ⟨.probeReady _, _, _, _⟩ :: h => justLooked h
  | _ => false

def startedBy : Trace Site → Option ℕ
  | ⟨.containerStart id, .ok _, _, _⟩ :: _ => some id
  | ⟨.probeReady _, _, _, _⟩ :: h => startedBy h
  | ⟨.inspectIP _, _, _, _⟩ :: h => startedBy h
  | _ => none

def readReady : Trace Site → Option String
  | ⟨.probeReady name, true, _, _⟩ :: _ => some name
  | ⟨.inspectIP _, _, _, _⟩ :: h => readReady h
  | _ => none

/-- What holds at every point of a run. -/
structure Vouched (P : String → Uid → Int) (h : Trace Site) (s : Site) : Prop where
  desired : Ported P s.host.mem.desired
  current : ∀ D, current h = some D → Ported P D
  latest : ∀ (id : ℕ) (b : Box), s.host.docker.boxes[id]? = some b → b.running = true → s.latest[b.name]? = some (id, b.uid)
  verdicts : ∀ n, s.positive n = true → s.Proven P n
  states : ∀ (n : String) (st : InstState), s.host.mem.states[n]? = some st → Backed P s n st
  shown : ∀ l, shown h = some l → ∀ ri ∈ l, ri.running = true →
    (ri.instanceName ∉ visited h ∨
      ∃ inst st₀, look h = some (inst, st₀) ∧ inst.metadata.name = ri.instanceName ∧ justLooked h = true) →
    s.latest[ri.instanceName]? = some (ri.containerID, ri.instanceUID)
  look : ∀ inst st₀, look h = some (inst, st₀) → st₀ = s.host.mem.stateFor inst ∧
    probePort inst = P inst.metadata.name inst.metadata.uid
  started : ∀ inst st₀ id, Agent.look h = some (inst, st₀) → startedBy h = some id →
    s.latest[inst.metadata.name]? = some (id, inst.metadata.uid)
  read : ∀ n, readReady h = some n → s.Proven P n
  created : ∀ inst id, createdBy h = some (inst, id) →
    ∀ b, s.host.docker.boxes[id]? = some b → b.labels = (boxOf inst).labels

section Step
variable {P : String → Uid → Int} {h h' : Trace Site} {s s' : Site} {w : World} {inst : Instance} {st st₀ : InstState}

/- A step that starts nothing and writes nothing, and that the history does not show or shows as a
call that matters to nobody. A new verdict is one that holds. -/
theorem vouched_quiet (hj : Vouched P h s) (hd : Shrinks s.host.docker s'.host.docker)
    (hst : s'.host.mem.states = s.host.mem.states) (hla : s'.latest = s.latest) (hpa : ∀ x ∈ s.passed, x ∈ s'.passed)
    (hdes : Ported P s'.host.mem.desired) (hpos : ∀ n, s'.positive n = true → s.positive n = true ∨ s'.Proven P n)
    (ha : Alike h h') (hlo : justLooked h' = true → justLooked h = true)
    (hsb : ∀ id, startedBy h' = some id → startedBy h = some id) (hrr : ∀ n, readReady h' = some n → s.Proven P n)
    (hcr : ∀ x, createdBy h' = some x → createdBy h = some x) : Vouched P h' s' where
  desired := hdes
  current := fun D hD => hj.current D (ha.current ▸ hD)
  latest := by
    intro id b' hb' hr
    obtain ⟨b, hb, hlab, hrun⟩ := hd.back id b' hb'
    have hname : b.name = b'.name := congrArg Prod.fst hlab
    have huid : b.uid = b'.uid := congrArg (fun x => x.2.1) hlab
    rw [hla, ← hname, ← huid]
    exact hj.latest id b hb (hrun hr)
  verdicts := by
    intro n hn
    rcases hpos n hn with hn | hn
    · exact proven_mono (hj.verdicts n hn) (by rw [hla]) hpa
    · exact hn
  states := by
    intro n st hs hr hp
    obtain ⟨id, hid, hm⟩ := hj.states n st (hst ▸ hs) hr hp
    exact ⟨id, hid, hpa _ hm⟩
  shown := by
    intro l hs ri hri hr hx
    rw [ha.shown] at hs
    rw [ha.visited, ha.look] at hx
    rw [hla]
    refine hj.shown l hs ri hri hr (hx.imp_right ?_)
    rintro ⟨i, x, hl, hn, hju⟩
    exact ⟨i, x, hl, hn, hlo hju⟩
  look := by
    intro i x hl
    rw [ha.look] at hl
    obtain ⟨hx, hp⟩ := hj.look i x hl
    exact ⟨hx.trans (stateFor_states hst i).symm, hp⟩
  started := by
    intro i x id hl hs
    rw [ha.look] at hl
    rw [hla]
    exact hj.started i x id hl (hsb id hs)
  read := fun n hn => proven_mono (hrr n hn) (by rw [hla]) hpa
  created := by
    intro i id hx b hb
    obtain ⟨b₀, hb₀, hlab, -⟩ := hd.back id b hb
    rw [← hlab]
    exact hj.created i id (hcr _ hx) b₀ hb₀

/-! ## Between the calls -/

theorem vouched_net (hj : Vouched P h s) (hh : s'.host = s.host) (hla : s'.latest = s.latest)
    (hpa : ∀ x ∈ s.passed, x ∈ s'.passed) (hv : ∀ v ∈ s'.prober.verdicts ++ s'.answer.getD [], v.ready = true →
      v ∈ s.prober.verdicts ++ s.answer.getD [] ∨ s'.Proven P v.inst) : Vouched P h s' := by
  refine vouched_quiet hj (hh ▸ shrinks_refl _) (by rw [hh]) hla hpa (hh ▸ hj.desired) ?_ (alike_refl h)
    (fun hl => hl) (fun _ hs => hs) hj.read fun _ hx => hx
  intro n hn
  rcases positive_iff.mp hn with hn | ⟨v, hm, rfl, hr⟩
  · rw [hh] at hn
    exact Or.inl (positive_iff.mpr (Or.inl hn))
  · rcases hv v hm hr with hm | hp
    · exact Or.inl (positive_iff.mpr (Or.inr ⟨v, hm, rfl, hr⟩))
    · exact Or.inr hp

theorem vouched_prober {p : Prober} (hj : Vouched P h s) (hv : ∀ v ∈ p.verdicts, v ∈ s.prober.verdicts) :
    Vouched P h { s with prober := p } := by
  refine vouched_net hj rfl rfl (fun _ hx => hx) ?_
  intro v hm _
  rcases List.mem_append.mp hm with hm | hm
  · exact Or.inl (List.mem_append_left _ (hv v hm))
  · exact Or.inl (List.mem_append_right _ hm)

theorem vouched_dialed {i : ℕ} (hj : Vouched P h s) (hc : ∀ t ∈ s.prober.dialing i, ∃ e ∈ s.host.docker.boxes.toList,
      e.2.running = true ∧ e.2.name = t.inst ∧ e.2.ip = t.ip ∧ (0 < P e.2.name e.2.uid → t.port = P e.2.name e.2.uid)) :
    Vouched P h (s.happen (.dialed i true)) := by
  refine vouched_net hj rfl rfl (fun _ hx => List.mem_append_right _ hx) ?_
  intro v hm _
  rcases List.mem_append.mp hm with hm | hm
  · rcases s.prober.verdicts_dialed i true v hm with hm | ⟨t, ht, rfl⟩
    · exact Or.inl (List.mem_append_left _ hm)
    · obtain ⟨⟨id, b⟩, hb, hr, hn, hip, hport⟩ := hc t ht
      have hb := Table.mem_toList.mp hb
      refine Or.inr ?_
      intro id' u hlat hpos
      have hlat' := hj.latest id b hb hr
      dsimp only at hn hip hport
      rw [hn] at hlat' hport
      obtain ⟨rfl, rfl⟩ := Prod.mk.inj (Option.mem_unique hlat' hlat)
      refine List.mem_append_left _ ?_
      rw [ht]
      exact hport hpos ▸ mem_reached hb hr hip
  · exact Or.inl (List.mem_append_right _ hm)

theorem vouched_tell (hj : Vouched P h s) : Vouched P h (s.happen .tell) := by
  unfold Site.happen
  dsimp only
  cases ha : s.answer with
  | none => exact hj
  | some probes =>
    refine vouched_quiet hj (shrinks_refl _) rfl rfl (fun _ hx => hx) hj.desired ?_ (alike_refl h)
      (fun hl => hl) (fun _ hs => hs) hj.read fun _ hx => hx
    intro n hn
    refine Or.inl (positive_iff.mpr (Or.inr ?_))
    rcases positive_iff.mp hn with hn | ⟨v, hm, hv⟩
    · rcases Table.get_fill_some hn with hm | hm
      · obtain ⟨v, hv, he⟩ := List.mem_map.mp hm
        obtain ⟨rfl, hr⟩ := Prod.mk.inj he
        refine ⟨v, List.mem_append_right _ ?_, rfl, hr⟩
        rw [ha]
        exact hv
      · rw [Std.ExtTreeMap.getElem?_empty] at hm
        cases hm
    · rcases List.mem_append.mp hm with hm | hm
      · exact ⟨v, List.mem_append_left _ hm, hv⟩
      · cases hm

theorem ported_snapshot {ds : NodeSnapshot}
    (hds : ∀ inst ∈ ds.instances, probePort inst = P inst.metadata.name inst.metadata.uid) :
    Ported P (desiredOf ds.instances) := by
  intro n inst hi
  obtain ⟨i, hm, he⟩ := List.mem_map.mp (mapOf_mem hi)
  obtain ⟨-, rfl⟩ := Prod.mk.inj he
  exact hds i hm

theorem vouched_host {w : World} (hj : Vouched P h s) (hd : Shrinks s.host.docker w.docker) (hm : w.mem = s.host.mem) :
    Vouched P h { s with host := w } := by
  refine vouched_quiet hj hd (by rw [hm]) rfl (fun _ hx => hx) (hm ▸ hj.desired) ?_ (alike_refl h)
    (fun hl => hl) (fun _ hs => hs) hj.read fun _ hx => hx
  intro n hn
  refine Or.inl ?_
  unfold Site.positive at hn ⊢
  rw [hm] at hn
  exact hn

theorem vouched_move {p : Prog Op Res Unit} {m : Happening} (hc : Attributed P ⟨s, p, h⟩ (.move m)) (hj : Vouched P h s) :
    Vouched P h (s.happen m) := by
  cases m with
  | snapshot ds =>
    exact vouched_quiet hj (shrinks_refl _) rfl rfl (fun _ hx => hx) (ported_snapshot hc) (fun _ hn => Or.inl hn)
      (alike_refl h) (fun hl => hl) (fun _ hs => hs) hj.read fun _ hx => hx
  | exit id code => exact vouched_host hj (shrinks_stop id code) rfl
  | vanish id => exact vouched_host hj (shrinks_keep _) rfl
  | tick d => exact vouched_host hj (shrinks_refl _) rfl
  | push net => exact vouched_net hj rfl rfl (fun _ hx => hx) fun _ hm _ => Or.inl hm
  | beginSweep => exact vouched_prober hj (s.prober.verdicts_beginSweep _)
  | dialed i ready =>
    cases ready with
    | true => exact vouched_dialed hj hc
    | false =>
      refine vouched_net hj rfl rfl (fun _ hx => hx) ?_
      intro v hm hr
      rcases List.mem_append.mp hm with hm | hm
      · rcases s.prober.verdicts_dialed i false v hm with hm | ⟨t, -, rfl⟩
        · exact Or.inl (List.mem_append_left _ hm)
        · cases hr
      · exact Or.inl (List.mem_append_right _ hm)
  | endSweep => exact vouched_prober hj s.prober.verdicts_endSweep
  | cancel => exact vouched_prober hj s.prober.verdicts_cancel
  | restart =>
    refine vouched_net hj rfl rfl (fun _ hx => hx) ?_
    intro v hm _
    refine Or.inl (List.mem_append_right _ ?_)
    rwa [show (s.happen .restart).prober.verdicts = [] from Prober.verdicts_new, List.nil_append] at hm
  | ask =>
    refine vouched_net hj rfl rfl (fun _ hx => hx) ?_
    intro v hm _
    refine Or.inl (List.mem_append_left _ ?_)
    rcases List.mem_append.mp hm with hm | hm
    · exact hm
    · exact List.mem_append_left _ hm
  | tell => exact vouched_tell hj

/-! ## The calls -/

theorem phaseRead_ready {l : Trace Site} (hj : Vouched P h s) (hl : Agent.look h = some (inst, st₀))
    (hpos : 0 < P inst.metadata.name inst.metadata.uid) (hp : PhaseRead inst l .ready h') :
    ∃ w w', h' = ⟨.probeReady inst.metadata.name, true, w, w'⟩ :: l := by
  have hport := (hj.look inst st₀ hl).2
  unfold probePort at hport
  generalize hph : InstancePhase.ready = phase at hp
  cases hp with
  | plain hp => omega
  | probed hp b w w' =>
    cases b with
    | true => exact ⟨w, w', rfl⟩
    | false => cases hph

theorem stateFor_backed (hj : Vouched P h s) (inst : Instance) :
    Backed P s inst.metadata.name (s.host.mem.stateFor inst) := by
  unfold Memory.stateFor
  dsimp only
  split
  · rename_i st hs
    split
    · exact hj.states _ st hs
    · rintro ⟨⟩
  · rintro ⟨⟩

theorem written_backed {node : String} (hj : Vouched P h s) (hl : Agent.look h = some (inst, st₀))
    (hw : Written node inst st₀ h st) : Backed P s inst.metadata.name st := by
  have hst := (hj.look inst st₀ hl).1
  have hu : st₀.uid = inst.metadata.uid := hst ▸ stateFor_uid _ _
  cases hw with
  | gated t e l w w' he hd =>
    -- The phase of an earlier pass is written again.
    have hb : Backed P s inst.metadata.name st₀ := hst ▸ stateFor_backed hj inst
    exact hb
  | failed t e text l w w' he hd => rintro ⟨⟩
  | crashed t ri l w w' w₁ w₁' hm hr ha hd => rintro ⟨⟩
  | started id ip phase l l' w w' w₁ w₁' w₂ w₂' hp hd =>
    rintro rfl hpos
    have hpos : 0 < P inst.metadata.name inst.metadata.uid := hu ▸ hpos
    obtain ⟨v, v', rfl⟩ := phaseRead_ready hj hl hpos hp
    have hlat := hj.started inst st₀ id hl rfl
    refine ⟨id, rfl, ?_⟩
    show (id, P inst.metadata.name st₀.uid) ∈ s.passed
    rw [hu]
    exact hj.read inst.metadata.name rfl id _ hlat hpos
  | running ri phase l l' w w' hm hr hp hd =>
    rintro rfl hpos
    have hpos : 0 < P inst.metadata.name inst.metadata.uid := hu ▸ hpos
    obtain ⟨v, v', rfl⟩ := phaseRead_ready hj hl hpos hp
    obtain ⟨cs, hcs, hmem, hlab⟩ := hm
    have hname : ri.instanceName = inst.metadata.name := congrArg Prod.fst hlab
    have huid : ri.instanceUID = inst.metadata.uid := congrArg (fun x => x.2.1) hlab
    have hlat := hj.shown cs hcs ri hmem hr (Or.inr ⟨inst, st₀, hl, hname.symm, rfl⟩)
    rw [hname, huid] at hlat
    refine ⟨ri.containerID, rfl, ?_⟩
    show (ri.containerID, P inst.metadata.name st₀.uid) ∈ s.passed
    rw [hu]
    exact hj.read inst.metadata.name rfl _ _ hlat hpos
  | drained ri l w w' hm hd =>
    unfold Agent.drained
    cases ri with
    | none => rintro ⟨⟩
    | some ri =>
      dsimp only
      split
      · rintro ⟨⟩
      · rintro ⟨⟩

theorem vouched_put (hj : Vouched P h s) (hb : Backed P s inst.metadata.name st) :
    let s' : Site := { s with host := { s.host with mem := s.host.mem.putState inst.metadata.name st } }
    Vouched P (⟨.putState inst.metadata.name st, (), s, s'⟩ :: h) s' := by
  intro s'
  refine ⟨hj.desired, hj.current, hj.latest, hj.verdicts, ?_, ?_, ?_, ?_, ?_, ?_⟩
  · intro n st' hst'
    have hst' : (s.host.mem.states.insert inst.metadata.name st)[n]? = some st' := hst'
    rw [Table.get_insert] at hst'
    split at hst'
    · rename_i hn
      cases hst'
      exact hn ▸ hb
    · exact hj.states n st' hst'
  · intro l hsh ri hri hr hx
    rcases hx with hx | ⟨i, x, hlook, -⟩
    · exact hj.shown l hsh ri hri hr (Or.inl hx)
    · cases hlook
  · rintro i x ⟨⟩
  · rintro i x id ⟨⟩
  · rintro n ⟨⟩
  · rintro i x ⟨⟩

theorem vouched_look {D : Desired} (hj : Vouched P h s) (hv : inst.metadata.name ∉ visited h)
    (hc : Agent.current h = some D) (hD : D.map[inst.metadata.name]? = some inst) :
    Vouched P (⟨.stateFor inst, s.host.mem.stateFor inst, s, s⟩ :: h) s := by
  refine ⟨hj.desired, hj.current, hj.latest, hj.verdicts, hj.states, ?_, ?_, ?_, ?_, ?_⟩
  · intro l hsh ri hri hr hx
    refine hj.shown l hsh ri hri hr (Or.inl ?_)
    rcases hx with hx | ⟨i, x, hlook, hn, -⟩
    · exact fun hmem => hx (List.mem_cons_of_mem _ hmem)
    · cases hlook
      exact hn ▸ hv
  · rintro i x ⟨⟩
    exact ⟨rfl, hj.current D hc _ _ hD⟩
  · rintro i x id - ⟨⟩
  · rintro n ⟨⟩
  · rintro i x ⟨⟩

theorem vouched_copy (hj : Vouched P h s) : Vouched P (⟨.snapshotDesired, s.host.mem.desired, s, s⟩ :: h) s := by
  refine ⟨hj.desired, ?_, hj.latest, hj.verdicts, hj.states, ?_, ?_, ?_, ?_, ?_⟩
  · rintro D ⟨⟩
    exact hj.desired
  · rintro l ⟨⟩
  · rintro i x ⟨⟩
  · rintro i x id ⟨⟩
  · rintro n ⟨⟩
  · rintro i x ⟨⟩

theorem vouched_list (hj : Vouched P h s) : Vouched P (⟨.containerList, .ok s.host.docker.list, s, s⟩ :: h) s := by
  refine ⟨hj.desired, hj.current, hj.latest, hj.verdicts, hj.states, ?_, hj.look, ?_, ?_, ?_⟩
  · rintro l ⟨⟩ ri hri hr -
    obtain ⟨id, b, hb, rfl⟩ := Docker.mem_list.mp hri
    exact hj.latest id b hb hr
  · rintro i x id - ⟨⟩
  · rintro n ⟨⟩
  · rintro i x ⟨⟩

theorem vouched_prune {D : Desired} (hj : Vouched P h s) (hl : Agent.look h = none) :
    let s' : Site := { s with host := { s.host with mem := s.host.mem.pruneState D } }
    Vouched P (⟨.pruneState D, (), s, s'⟩ :: h) s' := by
  intro s'
  refine ⟨hj.desired, hj.current, hj.latest, hj.verdicts, ?_, ?_, ?_, ?_, ?_, ?_⟩
  · intro n st hst
    have hst : (s.host.mem.states.filter fun name _ => D.map.contains name)[n]? = some st := hst
    rw [Table.get_filter] at hst
    exact hj.states n st (Option.filter_eq_some_iff.mp hst).1
  · intro l hsh ri hri hr hx
    refine hj.shown l hsh ri hri hr (hx.imp_right ?_)
    rintro ⟨i, x, -, -, ⟨⟩⟩
  · intro i x hlook
    have hlook : Agent.look h = some (i, x) := hlook
    rw [hl] at hlook
    cases hlook
  · rintro i x id - ⟨⟩
  · rintro n ⟨⟩
  · rintro i x ⟨⟩

theorem vouched_create (c : Choice) (hj : Vouched P h s) :
    let s' : Site := { s with host := (containerCreate c inst s.host).2 }
    Vouched P (⟨.containerCreate inst, (containerCreate c inst s.host).1, s, s'⟩ :: h) s' := by
  intro s'
  have hm : s'.host.mem = s.host.mem := exec_mem (show Op.remembers (.containerCreate inst) = false from rfl) c s.host
  refine ⟨hm ▸ hj.desired, hj.current, ?_, ?_, hm ▸ hj.states, ?_, ?_, ?_, ?_, ?_⟩
  · exact fun id b hb hr => hj.latest id b (create_running hb hr) hr
  · exact fun n hn => hj.verdicts n ((positive_exec c (.containerCreate inst) s n).symm.trans hn)
  · intro l hsh ri hri hr hx
    refine hj.shown l hsh ri hri hr (hx.imp_right ?_)
    rintro ⟨i, x, -, -, ⟨⟩⟩
  · exact hm ▸ hj.look
  · rintro i x id - ⟨⟩
  · rintro n ⟨⟩
  · intro i id hcr b hb
    unfold createdBy at hcr
    split at hcr
    · rename_i heq
      injection heq with he _
      injection he with hop hres
      cases hop
      cases hcr
      exact create_labels hres hb
    · cases hcr

section Start
variable {c : Choice} {id : ℕ}

theorem startedAt_cases (d : Docker) (id : ℕ) (n : String) :
    (s.startedAt id d)[n]? = s.latest[n]? ∨ ∃ b, d.boxes[id]? = some b ∧ b.running = true ∧ b.name = n := by
  unfold Site.startedAt
  split
  · rename_i b hb
    split
    · rename_i hr
      by_cases hn : b.name = n
      · exact Or.inr ⟨b, hb, hr, hn⟩
      · rw [Table.get_insert, if_neg hn]
        exact Or.inl rfl
    · exact Or.inl rfl
  · exact Or.inl rfl

theorem startedAt_running {d : Docker} {b : Box} (hb : d.boxes[id]? = some b) (hr : b.running = true) :
    (s.startedAt id d)[b.name]? = some (id, b.uid) := by
  unfold Site.startedAt
  rw [hb]
  dsimp only
  rw [if_pos hr, Table.get_insert, if_pos rfl]

/- The start is where the condition is used: no verdict can be older than the container. -/
theorem vouched_start (hj : Vouched P h s) (hl : Agent.look h = some (inst, st₀)) (hcr : createdBy h = some (inst, id))
    (hpos : ∀ b ∈ s.host.docker.boxes[id]?, s.positive b.name = false) :
    let w := (containerStart c id s.host).2
    let s' : Site := { s with host := w, latest := s.startedAt id w.docker }
    Vouched P (⟨.containerStart id, (containerStart c id s.host).1, s, s'⟩ :: h) s' := by
  intro w s'
  have hm : w.mem = s.host.mem := exec_mem (show Op.remembers (.containerStart id) = false from rfl) c s.host
  have hmine : ∀ b, w.docker.boxes[id]? = some b → b.labels = (boxOf inst).labels := by
    intro b hb
    obtain ⟨b₀, hb₀, hlab, -⟩ := start_back hb
    exact hlab.symm.trans (hj.created inst id hcr b₀ hb₀)
  refine ⟨hm ▸ hj.desired, hj.current, ?_, ?_, hm ▸ hj.states, ?_, hm ▸ hj.look, ?_, ?_, ?_⟩
  · intro i b hb hr
    by_cases hi : i = id
    · subst hi
      exact startedAt_running hb hr
    · obtain ⟨b₀, hb₀, -, heq⟩ := start_back hb
      obtain rfl := heq hi
      rcases startedAt_cases w.docker id b₀.name with he | ⟨x, hx, -, hn⟩
      · exact he.trans (hj.latest i b₀ hb₀ hr)
      · exact absurd (w.docker.named i id b₀ x hb hx hn.symm) hi
  · intro n hn
    have hn : s.positive n = true := (positive_exec c (.containerStart id) s n).symm.trans hn
    rcases startedAt_cases w.docker id n with he | ⟨x, hx, -, rfl⟩
    · exact proven_mono (hj.verdicts n hn) he fun _ hp => hp
    · obtain ⟨b₀, hb₀, hlab, -⟩ := start_back hx
      have hname : b₀.name = x.name := congrArg Prod.fst hlab
      rw [← hname, hpos b₀ hb₀] at hn
      cases hn
  · intro l hsh ri hri hr hx
    rcases hx with hx | ⟨i, x, -, -, ⟨⟩⟩
    have hx : ri.instanceName ∉ visited h := hx
    rcases startedAt_cases w.docker id ri.instanceName with he | ⟨b, hb, -, hn⟩
    · exact he.trans (hj.shown l hsh ri hri hr (Or.inl hx))
    · have hname : b.name = inst.metadata.name := congrArg Prod.fst (hmine b hb)
      rw [← hn, hname] at hx
      exact absurd (look_visited hl) hx
  · intro i x id' hlook hst
    have hlook : Agent.look h = some (i, x) := hlook
    rw [hl] at hlook
    cases hlook
    cases hr : (containerStart c id s.host).1 with
    | error text =>
      rw [hr] at hst
      cases hst
    | ok _ =>
      rw [hr] at hst
      cases hst
      obtain ⟨b, hb, hd⟩ := start_ok (Prod.ext hr rfl : containerStart c id s.host = (.ok (), w))
      have hnew : w.docker.boxes[id]? = some (b.start c.ip) := by
        rw [hd]
        unfold Docker.start
        rw [Docker.get_update, hb, Option.map_some, if_pos rfl]
      have hlat := startedAt_running (s := s) hnew (start_running c.ip b)
      have hlab := hmine _ hnew
      rw [show (b.start c.ip).name = inst.metadata.name from congrArg Prod.fst hlab,
        show (b.start c.ip).uid = inst.metadata.uid from congrArg (fun x => x.2.1) hlab] at hlat
      exact hlat
  · rintro n ⟨⟩
  · rintro i x ⟨⟩

end Start

theorem vouched_call {node : String} {op : Op} (c : Choice) (hs : loopSpec node h op) (hj : Vouched P h s)
    (hpos : ∀ id, op = .containerStart id → ∀ b ∈ s.host.docker.boxes[id]?, s.positive b.name = false) :
    Vouched P (probed.event c op s :: h) (probed.exec c op s).2 := by
  have hprobes := positive_exec c op s
  have hdesired : Ported P (exec c op s.host).2.mem.desired := by
    rw [(exec_keeps c op s.host).2]
    exact hj.desired
  cases op with
  | snapshotDesired => exact vouched_copy hj
  | stateFor inst =>
    obtain ⟨-, hv, D, hc, hD⟩ := hs
    exact vouched_look hj hv hc hD
  | putState name st =>
    obtain ⟨inst, st₀, hl, rfl, hw⟩ := hs
    exact vouched_put hj (written_backed hj hl hw)
  | pruneState D => exact vouched_prune hj hs.1
  | containerCreate inst => exact vouched_create c hj
  | containerStart id =>
    obtain ⟨inst, st₀, w₁, w₁', l, hl, rfl⟩ := hs
    exact vouched_start hj hl rfl (hpos id rfl)
  | containerList =>
    cases hf : c.fails with
    | false =>
      have he : probed.event c .containerList s = ⟨.containerList, .ok s.host.docker.list, s, s⟩ := by
        simp [Machine.event, exec, hf, Site.answered]
      rw [he]
      exact vouched_list hj
    | true =>
      have he : probed.event c .containerList s = ⟨.containerList, .error c.text, s, s⟩ := by
        simp [Machine.event, exec, hf, Site.answered]
      rw [he]
      exact vouched_quiet hj (shrinks_refl _) rfl rfl (fun _ hx => hx) hj.desired (fun _ hn => Or.inl hn)
        ⟨rfl, rfl, rfl, rfl⟩ (by rintro ⟨⟩) (by rintro id ⟨⟩) (by rintro n ⟨⟩) (by rintro x ⟨⟩)
  | probeReady name =>
    refine vouched_quiet hj (shrinks_refl _) rfl rfl (fun _ hx => hx) hj.desired (fun _ hn => Or.inl hn)
      (alike_still _ h rfl) (fun hl => hl) (fun _ hid => hid) ?_ (by rintro x ⟨⟩)
    show ∀ n, readReady (⟨.probeReady name, s.host.mem.probeReady.getD name false, s, s⟩ :: h) = some n → _
    cases hb : s.host.mem.probeReady.getD name false with
    | false => rintro n ⟨⟩
    | true =>
      rintro n ⟨⟩
      refine hj.verdicts name ?_
      unfold Site.positive
      rw [hb, Bool.true_or]
  | inspectIP id =>
    exact vouched_quiet hj (shrinks_refl _) rfl rfl (fun _ hx => hx) hj.desired (fun _ hn => Or.inl hn)
      (alike_still _ h rfl) (by rintro ⟨⟩) (fun _ hid => hid) hj.read (by rintro x ⟨⟩)
  | _ =>
    refine vouched_quiet hj (shrinks_exec rfl c s.host) (exec_states rfl c s.host) rfl (fun _ hx => hx) hdesired ?_
      (alike_still _ h rfl) (by rintro ⟨⟩) (by rintro id ⟨⟩) (by rintro n ⟨⟩) (by rintro x ⟨⟩)
    exact fun n hn => Or.inl ((hprobes n).symm.trans hn)

theorem vouched_start_life {docker : Docker} {daemon : Daemon} {prober : Prober} {passed : List (ℕ × Int)}
    (hv : ∀ v ∈ prober.verdicts, v.ready = true → (Site.start docker daemon prober passed).Proven P v.inst) :
    Vouched P [] (Site.start docker daemon prober passed) := by
  refine ⟨?_, ?_, ?_, ?_, ?_, ?_, ?_, ?_, ?_, ?_⟩
  · intro n inst hi
    cases mapOf_mem hi
  · rintro D ⟨⟩
  · intro id b hb hr
    have hb : docker.boxes[id]? = some b := hb
    refine Table.get_fill_mem (List.mem_map.mpr ⟨(id, b), List.mem_filter.mpr ⟨Table.mem_toList.mpr hb, hr⟩, rfl⟩) ?_
    intro v hv
    obtain ⟨⟨i, x⟩, hx, he⟩ := List.mem_map.mp hv
    obtain ⟨hn, rfl⟩ := Prod.mk.inj he
    have hx := Table.mem_toList.mp (List.mem_filter.mp hx).1
    obtain rfl := docker.named i id x b hx hb hn
    obtain rfl := Option.mem_unique hb hx
    rfl
  · intro n hn
    rcases positive_iff.mp hn with hn | ⟨v, hm, rfl, hr⟩
    · have hn : (∅ : Std.ExtTreeMap String Bool)[n]? = some true := hn
      rw [Std.ExtTreeMap.getElem?_empty] at hn
      cases hn
    · rcases List.mem_append.mp hm with hm | hm
      · exact hv v hm hr
      · cases hm
  · intro n st hst
    have hst : (∅ : Std.ExtTreeMap String InstState)[n]? = some st := hst
    rw [Std.ExtTreeMap.getElem?_empty] at hst
    cases hst
  · rintro l ⟨⟩
  · rintro i x ⟨⟩
  · rintro i x id ⟨⟩
  · rintro n ⟨⟩
  · rintro i x ⟨⟩

end Step

/-- In every run of one agent in which nothing calls an instance ready at the time its container is
started and a dial goes through only to the running container of its instance: READY is written for
an instance with a readiness port only when the container it names has passed a probe of its own
address on that port. -/
theorem ready_probed (P : String → Uid → Int) (node : String) (ps : List Pass) (docker : Docker) (daemon : Daemon)
    (prober : Prober) (passed : List (ℕ × Int))
    (hv : ∀ v ∈ prober.verdicts, v.ready = true → (Site.start docker daemon prober passed).Proven P v.inst)
    (ls : List (Tick probed))
    (hl : Each Proc.next (Attributed P) ((reconcileLoop node ps).start (Site.start docker daemon prober passed)) ls)
    (e : Event Op Res Site) (h : Trace Site)
    (he : e :: h <:+ (runs Proc.next
      ((reconcileLoop node ps).start (M := probed) (Site.start docker daemon prober passed)) ls).hist)
    (name : String) (st : InstState) (hwr : wrote e = some (name, st)) (hready : st.phase = .ready)
    (hport : 0 < P name st.uid) : ∃ id, st.containerID = some id ∧ (id, P name st.uid) ∈ e.pre.passed := by
  have hc := loop_calls (P := fun _ s op => ∀ name st, op = .putState name st → Backed P s name st) (C := Attributed P)
    (vouched_start_life hv) (fun s m hm hj => vouched_move hm hj) ?_ ?_ hl he
  · exact hc name st (op_wrote hwr) hready hport
  · intro s op k c hk hcond hs hj
    refine vouched_call c hs hj ?_
    rintro id rfl
    unfold Attributed at hcond
    rw [hk] at hcond
    exact hcond
  · rintro h s op hs hj name st rfl
    obtain ⟨inst, st₀, hlook, rfl, hw⟩ := hs
    exact written_backed hj hlook hw

/-! ## A verdict that outlives its container -/

def shopInstance : Instance where
  metadata := { name := "shop-1", uid := 4 }
  spec := { container := { readinessProbe := some 8080 } }

def shopPort : String → Uid → Int := fun _ _ => 8080

def emptySite : Site := Site.start Docker.none {} {} []

def shopPasses : Prog Op Res Unit := reconcileLoop "b" (List.replicate 3 ⟨id, List.Perm.refl⟩)

def shopCalls (n : ℕ) : List (Tick probed) := List.replicate n (.step ({ ip := "10.44.1.2" } : Choice))

def firstReady : List (Tick probed) :=
  [.move (.snapshot { instances := [shopInstance] })] ++ shopCalls 13 ++
  [.move (.push { probeTargets := [⟨"shop-1", "10.44.1.2", 8080⟩] }), .move .beginSweep, .move (.dialed 0 true),
    .move .endSweep, .move .ask, .move .tell]

/- It crashes, a pass notices, and a second later another container is started. -/
def replaced : List (Tick probed) :=
  firstReady ++ [.move (.exit 0 1)] ++ shopCalls 7 ++ [.move (.tick 1000000000)] ++ shopCalls 14

/-- The second container is READY as soon as it has been started. Nothing has dialled it. -/
theorem replaced_ready :
    let s := runs Proc.next (shopPasses.start (M := probed) emptySite) replaced
    ∃ e h st, s.hist = e :: h ∧ wrote e = some ("shop-1", st) ∧ st.phase = .ready ∧ st.containerID = some 1 ∧
      st.uid = shopInstance.metadata.uid ∧ e.pre.passed = [(0, 8080)] := by
  intro s
  have hready : s.hist.head?.any (fun e => (wrote e).any fun x => x.1 = "shop-1" && x.2.phase = .ready &&
      x.2.containerID = some 1 && x.2.uid = shopInstance.metadata.uid && e.pre.passed = [(0, 8080)]) = true := by decide +kernel
  obtain ⟨e, h, name, st, hs, hwr, hx⟩ := newest_wrote hready
  simp only [Bool.and_eq_true, decide_eq_true_eq] at hx
  obtain ⟨⟨⟨⟨rfl, hph⟩, hid⟩, hu⟩, hp⟩ := hx
  exact ⟨e, h, st, hs, hwr, hph, hid, hu, hp⟩

/-- The first container is READY once it has been dialled. -/
theorem ready_probed_first :
    let s := runs Proc.next (shopPasses.start (M := probed) emptySite) (firstReady ++ shopCalls 6)
    ∃ e h st, s.hist = e :: h ∧ wrote e = some ("shop-1", st) ∧ st.phase = .ready ∧
      ∃ id, st.containerID = some id ∧ (id, 8080) ∈ e.pre.passed := by
  intro s
  have hready : s.hist.head?.any (fun e => (wrote e).any fun x => x.1 = "shop-1" && x.2.phase = .ready) = true := by
    decide +kernel
  have hcond : Each Proc.next (Attributed shopPort) (shopPasses.start (M := probed) emptySite) (firstReady ++ shopCalls 6) := by
    decide +kernel
  obtain ⟨e, h, name, st, hs, hwr, hx⟩ := newest_wrote hready
  simp only [Bool.and_eq_true, decide_eq_true_eq] at hx
  obtain ⟨rfl, hph⟩ := hx
  have hv : ∀ v ∈ ({} : Prober).verdicts, v.ready = true → emptySite.Proven shopPort v.inst := by
    intro v hv
    rw [Prober.verdicts_new] at hv
    cases hv
  refine ⟨e, h, st, hs, hwr, hph, ?_⟩
  exact ready_probed shopPort "b" _ Docker.none {} {} [] hv _ hcond e h (hs ▸ List.suffix_refl _) "shop-1" st hwr hph
    (show (0 : Int) < 8080 by decide)

end Klite.Agent
