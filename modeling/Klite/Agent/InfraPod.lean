import Klite.Server.Agent

/-!
# The infra pod of a node (internal/agent/infrapod.go)

The donor container and the host ports it publishes, all derived from the node's index and
the bases of its bootstrap. Go's int has 64 bits and nothing here comes near its bounds.
-/

namespace Klite.Agent
open Lib

def defaultKliteNetImage : String := "klite-net:dev"
def defaultNetAdminPortBase : Int := 19000
def defaultEnvoyAdminPortBase : Int := 19500

structure HostBind where
  ip : String
  port : Int
  deriving DecidableEq

structure InfraContainer where
  name : String
  image : String
  labels : Std.ExtTreeMap String String
  staticIP : String
  capAdd : List String
  extraHosts : List String
  ports : Std.ExtTreeMap String HostBind

section Donor
variable (nb : NetBootstrap)

def netAdminPort : Int :=
  (if nb.netAdminPortBase = 0 then defaultNetAdminPortBase else nb.netAdminPortBase) + nb.nodeIndex

def envoyAdminPort : Int :=
  (if nb.envoyAdminPortBase = 0 then defaultEnvoyAdminPortBase else nb.envoyAdminPortBase) + nb.nodeIndex

def ingressPortRange : Int × Int :=
  let base := nb.ingressPortBase
  let per := nb.ingressPortsPerNode
  let idx := nb.nodeIndex
  if base ≤ 0 ∨ per ≤ 0 ∨ idx < 1 then (0, 0)
  else
    let lo := base + per * (idx - 1)
    let hi := lo + per
    if hi > 65536 then (0, 0) else (lo, hi)

def ingressPorts : List Int :=
  let range := ingressPortRange nb
  (List.range (range.2 - range.1).toNat).map fun i : ℕ => range.1 + (i : Int)

def tcp (p : Int) : String := toString p ++ "/tcp"

/-- What is published, in the order it is entered. -/
def published : List (String × HostBind) :=
  [("9090/tcp", ⟨"127.0.0.1", netAdminPort nb⟩), ("9901/tcp", ⟨"127.0.0.1", envoyAdminPort nb⟩)] ++
    (ingressPorts nb).map fun p => (tcp p, ⟨"0.0.0.0", p⟩)

def kliteNetImage : String := if nb.netImage ≠ "" then nb.netImage else defaultKliteNetImage

def infraLabels (node role : String) : Std.ExtTreeMap String String :=
  let labels := Table.fill ∅ [("io.klite.role", role), ("io.klite.node", node)]
  if nb.clusterId ≠ "" then labels.insert "io.klite.cluster" nb.clusterId else labels

def netContainerSpec (configHash : InfraContainer → String) (node : String) : InfraContainer :=
  let spec : InfraContainer :=
    { name := "klite." ++ node ++ ".net"
      image := kliteNetImage nb
      labels := infraLabels nb node "net"
      staticIP := nb.kliteNetIp
      capAdd := ["NET_ADMIN"]
      extraHosts := ["host.docker.internal:host-gateway"]
      ports := Table.fill ∅ (published nb) }
  { spec with labels := spec.labels.insert "io.klite.config-hash" (configHash spec) }

end Donor

def InfraContainer.hostPorts (c : InfraContainer) : List Int := c.ports.toList.map (·.2.port)

section Ports
variable {nb : NetBootstrap} {hash : InfraContainer → String} {node : String}

theorem mem_ingressPorts {p : Int} : p ∈ ingressPorts nb ↔ (ingressPortRange nb).1 ≤ p ∧ p < (ingressPortRange nb).2 := by
  unfold ingressPorts
  simp only [List.mem_map, List.mem_range]
  constructor
  · rintro ⟨i, hi, rfl⟩
    omega
  · intro h
    exact ⟨(p - (ingressPortRange nb).1).toNat, by omega, by omega⟩

theorem ingressPorts_nodup : (ingressPorts nb).Nodup := by
  unfold ingressPorts
  apply List.nodup_range.map
  intro i j hij
  have hij' : (ingressPortRange nb).1 + (i : Int) = (ingressPortRange nb).1 + (j : Int) := hij
  omega

theorem published_port {k : String} {b : HostBind} (h : (k, b) ∈ published nb) :
    b.port = netAdminPort nb ∨ b.port = envoyAdminPort nb ∨ b.port ∈ ingressPorts nb := by
  unfold published at h
  rcases List.mem_append.mp h with h | h
  · rcases List.mem_cons.mp h with h | h
    · cases h
      exact .inl rfl
    · cases List.mem_singleton.mp h
      exact .inr (.inl rfl)
  · obtain ⟨p, hp, he⟩ := List.mem_map.mp h
    cases he
    exact .inr (.inr hp)

theorem mem_hostPorts {p : Int} (h : p ∈ (netContainerSpec nb hash node).hostPorts) :
    p = netAdminPort nb ∨ p = envoyAdminPort nb ∨ p ∈ ingressPorts nb := by
  obtain ⟨⟨k, b⟩, hkb, rfl⟩ := List.mem_map.mp h
  rcases Table.get_fill_some (Table.mem_toList.mp hkb) with h | h
  · exact published_port h
  · simp at h

theorem tcp_inj {p q : Int} (h : tcp p = tcp q) : p = q :=
  toString_int_inj ((String.append_left_inj "/tcp").mp h)

/-- Every ingress port is published under its own number, whatever else is. -/
theorem ingress_published {p : Int} (h : p ∈ ingressPorts nb) :
    (netContainerSpec nb hash node).ports[tcp p]? = some ⟨"0.0.0.0", p⟩ := by
  show (Table.fill ∅ (published nb))[tcp p]? = _
  unfold published
  rw [Table.fill_append]
  refine Table.get_fill_mem (List.mem_map_of_mem h) ?_
  intro b hb
  obtain ⟨q, -, he⟩ := List.mem_map.mp hb
  obtain ⟨hkey, rfl⟩ := Prod.mk.inj he
  rw [tcp_inj hkey]

theorem hostPorts_nodup (h : ((published nb).map (·.2.port)).Nodup) : (netContainerSpec nb hash node).hostPorts.Nodup := by
  refine List.Nodup.map_on ?_ (Table.toList_nodup _)
  have hmem : ∀ x ∈ (netContainerSpec nb hash node).ports.toList, x ∈ published nb := by
    rintro ⟨k, b⟩ hx
    rcases Table.get_fill_some (Table.mem_toList.mp hx) with hm | hm
    · exact hm
    · simp at hm
  exact fun x hx y hy hxy => List.inj_on_of_nodup_map h (hmem x hx) (hmem y hy) hxy

end Ports

end Klite.Agent
