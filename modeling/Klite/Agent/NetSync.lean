import Klite.Net.Daemon
import Mathlib.Data.List.Dedup

/-!
# The agent's side of klite-net (internal/agent/netconf.go)

Each pass asks the daemon for its health, pushes the current `NetDesired` when it was not
the last one applied or the daemon's count of bound VIPs is off, and reads the probes.
The kicks of the report and reconcile loops are left out.
-/

namespace Klite
open Lib

structure NetAgent where
  haveSnapshot : Bool := false
  desiredNet : Option NetDesired := none
  appliedNet : Option NetDesired := none
  netHealthy : Bool := false
  probeReady : Std.ExtTreeMap String Bool := ∅

namespace NetAgent

def currentNet (a : NetAgent) : Option NetDesired :=
  if a.haveSnapshot then some (a.desiredNet.getD {}) else none

/-- A snapshot arrives, with or without a `NetDesired`. -/
def takeSnapshot (a : NetAgent) (net : Option NetDesired) : NetAgent :=
  { a with haveSnapshot := true, desiredNet := net }

end NetAgent

def uniqueVIPs (net : NetDesired) : ℕ := (net.services.map (·.vip)).dedup.length

namespace NetAgent

def needNetPush (a : NetAgent) (desired : NetDesired) (vipsBound : ℕ) : Bool :=
  match a.appliedNet with
  | none => true
  | some last => last ≠ desired || vipsBound ≠ uniqueVIPs desired

def markNetApplied (a : NetAgent) (net : NetDesired) : NetAgent := { a with appliedNet := some net }

def setNetHealthy (a : NetAgent) (healthy : Bool) : NetAgent := { a with netHealthy := healthy }

def updateProbes (a : NetAgent) (probes : List (String × Bool)) : NetAgent :=
  { a with probeReady := Table.fill ∅ probes }

end NetAgent

/-- What a pass is told besides the count of VIPs: whether DNS is up, and the probes. -/
structure NetReport where
  dnsReady : Bool
  probes : List (String × Bool)

/-- The end of `syncNet`, after a push that went through or was not needed. -/
def NetAgent.finishSync (a : NetAgent) (rep : NetReport) : NetAgent :=
  (a.setNetHealthy rep.dnsReady).updateProbes rep.probes

/-- `syncNet` (netconf.go:64) with Health and Probes answered, in one piece. -/
def syncNet (a : NetAgent) (d : Netd.Daemon) (rep : NetReport) : Except String Unit × NetAgent × Netd.Daemon :=
  match a.currentNet with
  | none => (.ok (), a, d)
  | some desired =>
    if a.needNetPush desired d.vipsBound then
      match d.applyConfig desired with
      | (.error e, d') => (.error e, a.setNetHealthy false, d')
      | (.ok _, d') => (.ok (), (a.markNetApplied desired).finishSync rep, d')
    else (.ok (), a.finishSync rep, d)

theorem uniqueVIPs_zero {net : NetDesired} : uniqueVIPs net = 0 ↔ net.services = [] := by
  unfold uniqueVIPs
  rw [List.length_eq_zero_iff, List.dedup_eq_nil, List.map_eq_nil_iff]

theorem needNetPush_false {a : NetAgent} {desired : NetDesired} {n : ℕ} (h : a.needNetPush desired n = false) :
    a.appliedNet = some desired ∧ n = uniqueVIPs desired := by
  unfold NetAgent.needNetPush at h
  split at h
  · cases h
  · rename_i last hlast
    simp only [ne_eq, Bool.or_eq_false_iff, decide_eq_false_iff_not, not_not] at h
    rw [hlast, h.1]
    exact ⟨rfl, h.2⟩

theorem needNetPush_applied {a : NetAgent} {desired : NetDesired} (h : a.appliedNet = some desired) (n : ℕ) :
    a.needNetPush desired n = decide (n ≠ uniqueVIPs desired) := by
  unfold NetAgent.needNetPush
  rw [h]
  simp

end Klite
