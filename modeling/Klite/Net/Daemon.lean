import Klite.Net.Config

/-!
# klite-net (internal/netd/server.go)

One daemon a node. It holds the configuration of the last push and keeps nothing across
restarts. Here all wanted addresses are bound; `Server` has the interface they are on. The
prober, the query log and the DNS are modules of their own.
-/

namespace Klite.Netd

def emptyConfig : NetConfig := ⟨0, ∅, [], []⟩

structure Daemon where
  cfg : NetConfig := emptyConfig
  serial : ℕ := 0
  vipsBound : ℕ := 0

-- `serial` is a uint32.
def Daemon.nextSerial (d : Daemon) : ℕ := (d.serial + 1) % 2 ^ 32

/-- `ApplyConfig` (server.go:81), under its lock. `bindVIPs` counts what it bound. -/
def Daemon.applyConfig (d : Daemon) (net : NetDesired) : Except String Unit × Daemon :=
  match parseConfig net d.nextSerial with
  | .error e => (.error ("net config: " ++ e), { d with serial := d.nextSerial })
  | .ok cfg => (.ok (), { cfg := cfg, serial := d.nextSerial, vipsBound := cfg.vipList.length })

variable {net : NetDesired} {cfg : NetConfig}

theorem applyConfig_ok {d : Daemon} (h : parseConfig net d.nextSerial = .ok cfg) :
    d.applyConfig net = (.ok (), { cfg := cfg, serial := d.nextSerial, vipsBound := cfg.vipList.length }) := by
  unfold Daemon.applyConfig
  rw [h]

theorem parseConfig_serial {n : ℕ} (h : parseConfig net n = .ok cfg) (m : ℕ) :
    parseConfig net m = .ok { cfg with serial := m } := by
  unfold parseConfig at h ⊢
  cases hv : net.services.foldlM addService ∅ with
  | error e =>
    rw [hv] at h
    cases h
  | ok vips =>
    rw [hv] at h
    cases h
    rfl

theorem config_serial {n : ℕ} (h : parseConfig net n = .ok cfg) : cfg.serial = n := by
  have hs := parseConfig_serial h n
  rw [h] at hs
  exact congrArg NetConfig.serial (Except.ok.inj hs)

theorem parseConfig_no_services (h : net.services = []) (n : ℕ) :
    parseConfig net n = .ok ⟨n, ∅, [], net.probeTargets.map probeOf⟩ := by
  unfold parseConfig
  rw [h]
  rfl

end Klite.Netd
