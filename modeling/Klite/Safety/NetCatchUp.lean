import Klite.Agent.NetSync
import Klite.Lib.Runs

/-!
# klite-net after a restart

Snapshots, restarts of the daemon and whole passes of the agent, in any order.
-/

namespace Klite
open Lib Netd

structure NetNode where
  agent : NetAgent := {}
  daemon : Daemon := {}

inductive NetEvent where
  | snapshot (net : Option NetDesired)
  | restart
  | sync (rep : NetReport)

namespace NetNode

def next (s : NetNode) : NetEvent → NetNode
  | .snapshot net => { s with agent := s.agent.takeSnapshot net }
  | .restart => { s with daemon := {} }
  | .sync rep => ⟨(syncNet s.agent s.daemon rep).2.1, (syncNet s.agent s.daemon rep).2.2⟩

/-- The push of a pass is not refused. -/
def Answered (s : NetNode) : NetEvent → Prop
  | .sync rep => (syncNet s.agent s.daemon rep).1 = .ok ()
  | _ => True

/-- The daemon runs on what the agent wants now. -/
def InSync (s : NetNode) : Prop :=
  ∀ desired, s.agent.currentNet = some desired → parseConfig desired s.daemon.cfg.serial = .ok s.daemon.cfg

/-- When what the agent wants is what it applied last and the daemon is empty, there is a VIP by
which the pass can tell, or nothing to push. -/
def Telling (s : NetNode) : Prop :=
  ∀ desired, s.agent.currentNet = some desired → s.agent.appliedNet = some desired → s.daemon.cfg = emptyConfig →
    desired.services ≠ [] ∨ desired.probeTargets = []

/-- What the agent applied last is what the daemon runs on, unless the daemon is empty. -/
structure Tracked (s : NetNode) : Prop where
  bound : s.daemon.vipsBound = s.daemon.cfg.vipList.length
  applied : ∀ last, s.agent.appliedNet = some last →
    parseConfig last s.daemon.cfg.serial = .ok s.daemon.cfg ∨
      s.daemon.cfg = emptyConfig ∧ ∃ cfg, parseConfig last 0 = .ok cfg

theorem tracked_start : Tracked {} where
  bound := rfl
  applied last h := by cases h

theorem sync_cases {s : NetNode} {rep : NetReport} (h : s.Answered (.sync rep)) {desired : NetDesired}
    (hcur : s.agent.currentNet = some desired) :
    (∃ cfg, parseConfig desired s.daemon.nextSerial = .ok cfg ∧
      s.next (.sync rep) = ⟨(s.agent.markNetApplied desired).finishSync rep,
        { cfg := cfg, serial := s.daemon.nextSerial, vipsBound := cfg.vipList.length }⟩ ∧
      s.agent.needNetPush desired s.daemon.vipsBound) ∨
    s.agent.appliedNet = some desired ∧ s.daemon.vipsBound = uniqueVIPs desired ∧
      s.next (.sync rep) = ⟨s.agent.finishSync rep, s.daemon⟩ := by
  unfold Answered at h
  unfold next
  dsimp only
  unfold syncNet at h ⊢
  rw [hcur] at h ⊢
  dsimp only at h ⊢
  cases hneed : s.agent.needNetPush desired s.daemon.vipsBound with
  | false =>
    obtain ⟨happ, hcount⟩ := needNetPush_false hneed
    exact Or.inr ⟨happ, hcount, rfl⟩
  | true =>
    rw [hneed] at h
    cases hp : parseConfig desired s.daemon.nextSerial with
    | error e =>
      unfold Daemon.applyConfig at h
      rw [hp] at h
      cases h
    | ok cfg =>
      rw [applyConfig_ok hp]
      exact Or.inl ⟨cfg, rfl, rfl, rfl⟩

theorem sync_unset {s : NetNode} (rep : NetReport) (h : s.agent.currentNet = none) : s.next (.sync rep) = s := by
  unfold next syncNet
  rw [h]

theorem tracked_next {s : NetNode} (hs : Tracked s) (ev : NetEvent) (h : s.Answered ev) : Tracked (s.next ev) := by
  cases ev with
  | snapshot net => exact ⟨hs.bound, hs.applied⟩
  | restart =>
    refine ⟨rfl, ?_⟩
    intro last hlast
    refine Or.inr ⟨rfl, ?_⟩
    rcases hs.applied last hlast with hp | ⟨-, hp⟩
    · exact ⟨_, parseConfig_serial hp 0⟩
    · exact hp
  | sync rep =>
    cases hcur : s.agent.currentNet with
    | none =>
      rw [sync_unset rep hcur]
      exact hs
    | some desired =>
      rcases sync_cases h hcur with ⟨cfg, hp, hnext, -⟩ | ⟨-, -, hnext⟩
      · rw [hnext]
        refine ⟨rfl, ?_⟩
        intro last hlast
        cases hlast
        exact Or.inl (by rw [config_serial hp]; exact hp)
      · rw [hnext]
        exact ⟨hs.bound, hs.applied⟩

theorem tracked_run {evs : List NetEvent} (h : Each next Answered {} evs) : Tracked (runs next {} evs) := by
  have hstep : ∀ s ev, Tracked s → Answered s ev → Tracked (next s ev) := fun _ ev hs hev => tracked_next hs ev hev
  exact runs_invariant hstep tracked_start h

/-- After a pass in which no call fails the daemon runs on what the agent wants exactly when the
state before it was telling. -/
theorem inSync_iff {s : NetNode} (hs : Tracked s) {rep : NetReport} (h : s.Answered (.sync rep)) :
    InSync (s.next (.sync rep)) ↔ Telling s := by
  cases hcur : s.agent.currentNet with
  | none =>
    have hunset : ∀ desired, s.agent.currentNet ≠ some desired := by
      intro desired hd
      rw [hcur] at hd
      cases hd
    rw [sync_unset rep hcur]
    exact ⟨fun _ desired hd => absurd hd (hunset desired), fun _ desired hd => absurd hd (hunset desired)⟩
  | some desired =>
    rcases sync_cases h hcur with ⟨cfg, hp, hnext, hneed⟩ | ⟨happ, hcount, hnext⟩
    · rw [hnext]
      constructor
      · intro _ desired' hcur' happ' hempty
        obtain rfl := Option.mem_unique hcur hcur'
        rw [needNetPush_applied happ', hs.bound, hempty, decide_eq_true_eq] at hneed
        exact Or.inl fun hnone => hneed (uniqueVIPs_zero.mpr hnone).symm
      · intro _ desired' hcur'
        obtain rfl := Option.mem_unique hcur hcur'
        show parseConfig desired cfg.serial = .ok cfg
        rw [config_serial hp]
        exact hp
    · rw [hnext]
      constructor
      · intro hin desired' hcur' _ hempty
        obtain rfl := Option.mem_unique hcur hcur'
        have hnone : desired.services = [] := by
          rw [← uniqueVIPs_zero, ← hcount, hs.bound, hempty]
          rfl
        have hcfg := hin desired hcur
        rw [parseConfig_no_services hnone, hempty] at hcfg
        have htargets := congrArg NetConfig.targets (Except.ok.inj hcfg)
        exact Or.inr (List.map_eq_nil_iff.mp htargets)
      · intro htell desired' hcur'
        obtain rfl := Option.mem_unique hcur hcur'
        rcases hs.applied desired happ with hp | ⟨hempty, -⟩
        · exact hp
        · have hnone : desired.services = [] := by
            rw [← uniqueVIPs_zero, ← hcount, hs.bound, hempty]
            rfl
          have hno := (htell desired hcur happ hempty).resolve_left (fun hne => hne hnone)
          show parseConfig desired s.daemon.cfg.serial = .ok s.daemon.cfg
          rw [parseConfig_no_services hnone, hempty, hno]
          rfl

end NetNode

/-- In every run of snapshots, restarts and passes in which no call fails, a pass leaves the daemon
with what the agent wants exactly when the state before it was telling. -/
theorem net_caught_up {evs : List NetEvent} {rep : NetReport}
    (h : Each NetNode.next NetNode.Answered {} (evs ++ [.sync rep])) :
    (runs NetNode.next {} (evs ++ [.sync rep])).InSync ↔ (runs NetNode.next {} evs).Telling := by
  obtain ⟨hruns, hlast⟩ := each_append.mp h
  rw [runs_append]
  exact NetNode.inSync_iff (NetNode.tracked_run hruns) hlast.1

/-- An instance with a readiness port that no service selects. -/
def probeOnly : NetDesired := { probeTargets := [⟨"job-1a2b", "10.44.0.2", 8080⟩] }

def quietReport : NetReport := ⟨true, []⟩

def probedRun : List NetEvent := [.snapshot (some probeOnly), .sync quietReport, .restart]

/-- The daemon restarts after the push. The next pass sees no VIP bound, as it should be, and pushes
nothing, so the daemon probes nothing. -/
theorem net_left_empty : Each NetNode.next NetNode.Answered {} (probedRun ++ [.sync quietReport]) ∧
      ¬ (runs NetNode.next {} (probedRun ++ [.sync quietReport])).InSync := by
  refine ⟨⟨trivial, rfl, trivial, rfl, trivial⟩, ?_⟩
  intro hin
  have hcfg := hin probeOnly rfl
  have htargets := congrArg (fun c => c.toOption.map (·.targets)) hcfg
  revert htargets
  decide +kernel

def servedRun : List NetEvent :=
  [.snapshot (some { probeOnly with services := [⟨"web", "10.44.64.1", 80, 8080⟩] }), .sync quietReport, .restart]

theorem net_caught_up_served : (runs NetNode.next {} (servedRun ++ [.sync quietReport])).InSync := by
  have hanswered : Each NetNode.next NetNode.Answered {} (servedRun ++ [.sync quietReport]) :=
    ⟨trivial, rfl, trivial, rfl, trivial⟩
  refine (net_caught_up hanswered).mpr ?_
  intro desired hcur _ _
  cases hcur
  exact Or.inl (List.cons_ne_nil _ _)

end Klite
