import Klite.Agent.InfraPod
import Klite.Controller.IngressSpec
import Klite.Safety.NodeIndex

/-!
# What is derived from a node's index

The server derives the donor's address from the index and the allocator its ingress slice,
the agent derives the host ports, and none of them bounds the index.
-/

namespace Klite
open Lib Agent

section Slices
variable (hash : InfraContainer → String) (node : String) (cfg : AgentConfig) (index : Int)

/-- The allocator and the donor of a node mean the same slice. -/
structure SlicesAgree : Prop where
  both : (∃ r, nodeRange (ingressPortBase cfg.ingressPortBaseFlag) index = some r) ↔
    (ingressPortRange (netBootstrap cfg index)).1 < (ingressPortRange (netBootstrap cfg index)).2
  equal : ∀ r, nodeRange (ingressPortBase cfg.ingressPortBaseFlag) index = some r →
    ingressPortRange (netBootstrap cfg index) = r
  -- What the allocator hands out, the donor publishes.
  served : ∀ r used p, nodeRange (ingressPortBase cfg.ingressPortBaseFlag) index = some r →
    firstFreePort r.1 r.2 used = .ok p →
    (netContainerSpec (netBootstrap cfg index) hash node).ports[tcp p]? = some ⟨"0.0.0.0", p⟩

variable {cfg index}

theorem ingressPortRange_bootstrap (hbase : 1 ≤ ingressPortBase cfg.ingressPortBaseFlag) (index : Int) :
    ingressPortRange (netBootstrap cfg index) =
      if 1 ≤ index ∧ ingressPortBase cfg.ingressPortBaseFlag + 32 * index ≤ 65536 then
        (ingressPortBase cfg.ingressPortBaseFlag + 32 * (index - 1), ingressPortBase cfg.ingressPortBaseFlag + 32 * index)
      else (0, 0) := by
  unfold ingressPortRange netBootstrap ingressPortsPerNode
  dsimp only
  generalize ingressPortBase cfg.ingressPortBaseFlag = base at hbase
  split
  · rw [if_neg (by omega)]
  · split
    · rw [if_neg (by omega)]
    · rw [if_pos (by omega)]
      congr 1
      omega

theorem firstFreePort_bounds {lo hi p : Int} {used : List Int} (h : firstFreePort lo hi used = .ok p) : lo ≤ p ∧ p < hi := by
  unfold firstFreePort at h
  rw [portScan_ports] at h
  split at h
  · next q hq =>
    cases h
    exact mem_ports.mp (List.mem_of_find?_eq_some hq)
  · cases h

/- The slice fits the port space, or its lower end cut to int32 is one the allocator refuses. -/
def SliceSafe (base index : Int) : Prop :=
  index < 1 ∨ base + 32 * index ≤ 65536 ∨ int32 (base + 32 * (index - 1)) < 1 ∨
    (65504 < int32 (base + 32 * (index - 1)) ∧ int32 (base + 32 * (index - 1)) < 2 ^ 31 - 32)

theorem nodeRange_refused {base : Int} (hindex : 1 ≤ index) (hbig : 65536 < base + 32 * index) :
    nodeRange base index = none ↔ SliceSafe base index := by
  have hval := int32_val (base + 32 * (index - 1))
  unfold SliceSafe
  rw [nodeRange_wrapped hindex]
  generalize int32 (base + 32 * (index - 1)) = lo at hval
  have hhi := int32_val (lo + 32)
  generalize int32 (lo + 32) = hi at hhi
  split
  · simp only [true_iff]
    omega
  · simp only [reduceCtorEq, false_iff]
    omega

/-- For every base of at least 1 and every index, the slices agree exactly when the allocator's arithmetic does not wrap
around into the port space. -/
theorem ingress_slices_agree (hbase : 1 ≤ ingressPortBase cfg.ingressPortBaseFlag) :
    SlicesAgree hash node cfg index ↔ SliceSafe (ingressPortBase cfg.ingressPortBaseFlag) index := by
  have hrange := ingressPortRange_bootstrap hbase index
  by_cases hbig : 1 ≤ index ∧ 65536 < ingressPortBase cfg.ingressPortBaseFlag + 32 * index
  · -- The donor publishes nothing, so the allocator has to refuse.
    rw [if_neg (by omega)] at hrange
    rw [← nodeRange_refused hbig.1 hbig.2]
    constructor
    · intro h
      rw [← Option.not_isSome_iff_eq_none, Option.isSome_iff_exists, h.both, hrange]
      decide
    · intro hnone
      have hno : ∀ r, nodeRange (ingressPortBase cfg.ingressPortBaseFlag) index ≠ some r := by simp [hnone]
      refine ⟨⟨fun ⟨r, hr⟩ => absurd hr (hno r), fun hlt => ?_⟩, fun r hr => absurd hr (hno r), fun r _ _ hr => absurd hr (hno r)⟩
      rw [hrange] at hlt
      exact absurd hlt (by decide)
  · -- Nothing overflows.
    have hexact := fun r => nodeRange_exact (i := index) (r := r) (show -2147483648 ≤ ingressPortBase cfg.ingressPortBaseFlag by omega)
      (fun h1 => by omega)
    have hequal : ∀ r, nodeRange (ingressPortBase cfg.ingressPortBaseFlag) index = some r →
        ingressPortRange (netBootstrap cfg index) = r := by
      intro r hr
      obtain ⟨⟨h1, -, h3⟩, rfl⟩ := (hexact r).mp hr
      rw [hrange, if_pos ⟨h1, h3⟩]
    refine iff_of_true ⟨⟨?_, ?_⟩, hequal, ?_⟩ (by unfold SliceSafe; omega)
    · rintro ⟨r, hr⟩
      rw [hequal r hr, ((hexact r).mp hr).2]
      show _ < _
      omega
    · intro hlt
      rw [hrange] at hlt
      split at hlt
      · next h => exact ⟨_, (hexact _).mpr ⟨⟨h.1, by omega, h.2⟩, rfl⟩⟩
      · exact absurd hlt (by decide)
    · intro r used p hr hp
      apply ingress_published
      rw [mem_ingressPorts, hequal r hr]
      exact firstFreePort_bounds hp

-- Past 2²⁷ the slices of the allocator begin again at the base.
theorem ingress_slices_wrap : nodeRange 20000 134217729 = some (20000, 20032) ∧
    ingressPortRange (netBootstrap {} 134217729) = (0, 0) ∧ ¬ SlicesAgree (fun _ => "h") "a" {} 134217729 := by
  have hserver : nodeRange 20000 134217729 = some (20000, 20032) := by decide
  have hagent : ingressPortRange (netBootstrap {} 134217729) = (0, 0) := by decide
  refine ⟨hserver, hagent, fun h => ?_⟩
  have hlt := h.both.mp ⟨_, hserver⟩
  rw [hagent] at hlt
  exact absurd hlt (by decide)

theorem ingress_slices_agree_first : SliceSafe 20000 1 ∧ nodeRange 20000 1 = some (20000, 20032) ∧
    SlicesAgree (fun _ => "h") "a" {} 1 := by
  have hsafe : SliceSafe 20000 1 := .inr (.inl (by decide))
  exact ⟨hsafe, by decide, (ingress_slices_agree (fun _ => "h") "a" (by decide)).mpr hsafe⟩

end Slices

section Addresses
variable (hash : InfraContainer → String) (cfg : AgentConfig)

-- 10.44.0.0/24
def donorPool : Netip.Prefix := ⟨⟨false, 170655744, ""⟩, 24⟩

def donor (w : World) (n : String) : InfraContainer := netContainerSpec (netBootstrap cfg (indexAt w n)) hash n

/-- The addresses and ports derived from the stored indexes are good and collide nowhere. -/
structure AddressesApart (w : World) : Prop where
  address : ∀ n, indexAt w n ≠ 0 →
    ∃ a, Netip.parseAddr (netBootstrap cfg (indexAt w n)).kliteNetIp = some a ∧ a.is6 = false ∧ donorPool.contains a
  ports : ∀ n, indexAt w n ≠ 0 → ∀ p ∈ (donor hash cfg w n).hostPorts, 1 ≤ p ∧ p ≤ 65535
  distinct : ∀ n, indexAt w n ≠ 0 → (donor hash cfg w n).hostPorts.Nodup
  disjoint : ∀ n m, n ≠ m → indexAt w n ≠ 0 → indexAt w m ≠ 0 →
    ∀ p ∈ (donor hash cfg w n).hostPorts, p ∉ (donor hash cfg w m).hostPorts

structure DefaultBases : Prop where
  infraIP : cfg.infraIPBase = 0
  netAdmin : cfg.netAdminPortBase = 0
  envoyAdmin : cfg.envoyAdminPortBase = 0
  ingress : cfg.ingressPortBaseFlag = 0

variable {cfg}

theorem kliteNetIp_default (hcfg : DefaultBases cfg) (i : Int) :
    (netBootstrap cfg i).kliteNetIp = "10.44.0." ++ toString (int32 (10 + i)) := by
  unfold netBootstrap
  dsimp only
  rw [hcfg.infraIP, if_pos rfl]
  rfl

theorem pool_string {d : ℕ} (hd : d < 256) : Netip.Addr.string ⟨false, 170655744 + d, ""⟩ = "10.44.0." ++ toString d := by
  have hoctets : Netip.Addr.octets ⟨false, 170655744 + d, ""⟩ = [10, 44, 0, d] := by
    simp only [Netip.Addr.octets, List.cons.injEq, and_true]
    omega
  unfold Netip.Addr.string
  rw [hoctets]
  apply String.toList_inj.mp
  simp
  rfl

theorem donorPool_iff {bits : ℕ} {zone : String} :
    donorPool.contains ⟨false, bits, zone⟩ ↔ zone = "" ∧ bits / 256 = 666624 := by
  have hsize : 2 ^ (Netip.Addr.bitLen ⟨false, bits, zone⟩ - donorPool.bits) = 256 := rfl
  have hnet : donorPool.addr.bits / 256 = 666624 := rfl
  unfold Netip.Prefix.contains
  rw [Bool.and_eq_true, Bool.and_eq_true, decide_eq_true_eq, decide_eq_true_eq, decide_eq_true_eq, hsize, hnet]
  exact ⟨fun h => ⟨h.1.1, h.2⟩, fun h => ⟨⟨h.1, rfl⟩, h.2⟩⟩

theorem donorPool_contains {a : Netip.Addr} (h : donorPool.contains a) : ∃ d < 256, a = ⟨false, 170655744 + d, ""⟩ := by
  have h6 := Netip.contains_is4 (p := donorPool) rfl h
  obtain ⟨is6, bits, zone⟩ := a
  obtain rfl : is6 = false := h6
  obtain ⟨rfl, hbits⟩ := donorPool_iff.mp h
  refine ⟨bits - 170655744, by omega, ?_⟩
  rw [show 170655744 + (bits - 170655744) = bits by omega]

section Bases
variable (hcfg : DefaultBases cfg)
include hcfg

theorem address_iff {i : Int} (hlo : -2 ^ 31 ≤ i) (hhi : i < 2 ^ 31) :
    (∃ a, Netip.parseAddr (netBootstrap cfg i).kliteNetIp = some a ∧ a.is6 = false ∧ donorPool.contains a) ↔ -10 ≤ i ∧ i ≤ 245 := by
  rw [kliteNetIp_default hcfg]
  constructor
  · rintro ⟨a, hparse, h4, hin⟩
    obtain ⟨d, hd, rfl⟩ := donorPool_contains hin
    have htext := Netip.parseAddr_text hparse h4
    rw [pool_string hd] at htext
    have hnum : int32 (10 + i) = (d : Int) := toString_int_inj ((String.append_right_inj _).mp htext)
    have hwrap : int32 (10 + i) = 10 + i ∨ int32 (10 + i) = 10 + i - 2 ^ 32 := by
      unfold int32
      rw [Int.bmod_def]
      omega
    omega
  · rintro ⟨h1, h2⟩
    obtain ⟨d, hd⟩ : ∃ d : ℕ, 10 + i = d := ⟨(10 + i).toNat, by omega⟩
    rw [int32_self (by omega) (by omega), hd]
    refine ⟨⟨false, 170655744 + d, ""⟩, ?_, rfl, ?_⟩
    · have hs := pool_string (d := d) (by omega)
      rw [show toString (d : Int) = toString d from rfl, ← hs]
      exact Netip.parseAddr_string (by omega)
    · exact donorPool_iff.mpr ⟨rfl, by omega⟩

theorem netAdminPort_default (i : Int) : netAdminPort (netBootstrap cfg i) = 19000 + i := by
  unfold netAdminPort netBootstrap
  rw [hcfg.netAdmin]
  rfl

theorem envoyAdminPort_default (i : Int) : envoyAdminPort (netBootstrap cfg i) = 19500 + i := by
  unfold envoyAdminPort netBootstrap
  rw [hcfg.envoyAdmin]
  rfl

theorem mem_ingressPorts_default {i p : Int} (h : p ∈ ingressPorts (netBootstrap cfg i)) :
    1 ≤ i ∧ 20000 + 32 * (i - 1) ≤ p ∧ p < 20000 + 32 * i := by
  have hbase : ingressPortBase cfg.ingressPortBaseFlag = 20000 := by
    rw [hcfg.ingress]
    rfl
  rw [mem_ingressPorts, ingressPortRange_bootstrap (by omega) i, hbase] at h
  split at h
  · next hi => exact ⟨hi.1, h⟩
  · exact absurd h (by omega)

theorem hostPort_cases {i p : Int} {node : String} (h : p ∈ (netContainerSpec (netBootstrap cfg i) hash node).hostPorts) :
    p = 19000 + i ∨ p = 19500 + i ∨ (1 ≤ i ∧ 20000 + 32 * (i - 1) ≤ p ∧ p < 20000 + 32 * i) := by
  rcases mem_hostPorts h with rfl | rfl | hp
  · exact .inl (netAdminPort_default hcfg i)
  · exact .inr (.inl (envoyAdminPort_default hcfg i))
  · exact .inr (.inr (mem_ingressPorts_default hcfg hp))

theorem published_nodup {i : Int} (hlo : -10 ≤ i) (hhi : i ≤ 245) :
    ((published (netBootstrap cfg i)).map (·.2.port)).Nodup := by
  have hports : (published (netBootstrap cfg i)).map (·.2.port) =
      (19000 + i) :: (19500 + i) :: ingressPorts (netBootstrap cfg i) := by
    unfold published
    simp only [List.map_cons, List.map_map, Function.comp_def, List.map_id_fun', id,
      List.cons_append, List.nil_append, netAdminPort_default hcfg, envoyAdminPort_default hcfg]
  rw [hports, List.nodup_cons, List.nodup_cons, List.mem_cons]
  refine ⟨?_, fun h => ?_, ingressPorts_nodup⟩
  · rintro (h | h)
    · omega
    · have hp := mem_ingressPorts_default hcfg h
      omega
  · have hp := mem_ingressPorts_default hcfg h
    omega

end Bases

/-- With the default bases and distinct indexes, the addresses and ports are apart exactly when every index is between -10 and 245. -/
theorem addresses_apart (hcfg : DefaultBases cfg) (w : World) (hint32 : ∀ n, -2 ^ 31 ≤ indexAt w n ∧ indexAt w n < 2 ^ 31)
    (hdistinct : ∀ n m, n ≠ m → indexAt w n ≠ 0 → indexAt w n ≠ indexAt w m) :
    AddressesApart hash cfg w ↔ ∀ n, indexAt w n ≠ 0 → -10 ≤ indexAt w n ∧ indexAt w n ≤ 245 := by
  constructor
  · intro h n hn
    exact (address_iff hcfg (hint32 n).1 (hint32 n).2).mp (h.address n hn)
  · intro h
    refine ⟨?_, ?_, ?_, ?_⟩
    · intro n hn
      exact (address_iff hcfg (hint32 n).1 (hint32 n).2).mpr (h n hn)
    · intro n hn p hp
      have hi := h n hn
      rcases hostPort_cases hash hcfg hp with hp | hp | hp <;> omega
    · intro n hn
      exact hostPorts_nodup (published_nodup hcfg (h n hn).1 (h n hn).2)
    · intro n m hnm hn hm p hp hp'
      have hi := h n hn
      have hj := h m hm
      have hne := hdistinct n m hnm hn
      rcases hostPort_cases hash hcfg hp with hp | hp | hp <;>
        rcases hostPort_cases hash hcfg hp' with hp' | hp' | hp' <;> omega

/- Node a registers and gets index 1; node b, whose record has no index, reports one. -/
def reportedSteps (index : Int) : List Step :=
  [.spawn (joins "a"), .step 0 {}, .step 0 {}, .step 0 {}, .step 0 {}, .step 0 {},
    .spawn (.reportStatus (.node "b") { node := "b", nodeIndex := index })] ++ List.replicate 8 (.step 1 {})

def reportedWorld (index : Int) : World := (tokenRun twoNodes (reportedSteps index)).world

def indexList (w : World) : List (String × Int) := (w.store.listing .node).map fun n => (n.metadata.name, Node.index n)

theorem indexAt_listed {w : World} {n : String} (h : indexAt w n ≠ 0) : (n, indexAt w n) ∈ indexList w := by
  unfold indexAt at h ⊢
  cases hl : w.store.lookup .node n with
  | none =>
    rw [hl] at h
    exact absurd rfl h
  | some e =>
    exact List.mem_map.mpr ⟨e.1, mem_listing.mpr (holds_of_lookup hl), congrArg (·, e.1.index) (lookup_some hl).1⟩

/-- The klite-net admin port of b is the Envoy admin port of a, and 10.44.0.511 is no address. -/
theorem addresses_collide : indexList (reportedWorld 501) = [("a", 1), ("b", 501)] ∧
    netAdminPort (netBootstrap tokenConfig.agent 501) = envoyAdminPort (netBootstrap tokenConfig.agent 1) ∧
    Netip.parseAddr (netBootstrap tokenConfig.agent 501).kliteNetIp = none ∧
    ¬ AddressesApart (fun _ => "h") tokenConfig.agent (reportedWorld 501) := by
  have hindex : indexAt (reportedWorld 501) "b" = 501 := by decide +kernel
  have hnone : Netip.parseAddr (netBootstrap tokenConfig.agent 501).kliteNetIp = none := by decide +kernel
  refine ⟨by decide +kernel, by decide, hnone, fun h => ?_⟩
  obtain ⟨a, ha, -⟩ := h.address "b" (by rw [hindex]; decide)
  rw [hindex, hnone] at ha
  cases ha

theorem addresses_apart_two : indexList (reportedWorld 7) = [("a", 1), ("b", 7)] ∧
    AddressesApart (fun _ => "h") tokenConfig.agent (reportedWorld 7) := by
  have hlist : indexList (reportedWorld 7) = [("a", 1), ("b", 7)] := by decide +kernel
  have hcases : ∀ n, indexAt (reportedWorld 7) n = 0 ∨ (n = "a" ∧ indexAt (reportedWorld 7) n = 1) ∨
      (n = "b" ∧ indexAt (reportedWorld 7) n = 7) := by
    intro n
    by_cases h0 : indexAt (reportedWorld 7) n = 0
    · exact .inl h0
    · have hmem := indexAt_listed h0
      rw [hlist] at hmem
      simpa [h0] using hmem
  refine ⟨hlist, (addresses_apart (fun _ => "h") ⟨rfl, rfl, rfl, rfl⟩ (reportedWorld 7) ?_ ?_).mpr ?_⟩
  · intro n
    rcases hcases n with h | ⟨-, h⟩ | ⟨-, h⟩ <;> rw [h] <;> decide
  · intro n m hnm hn
    rcases hcases n with h | ⟨rfl, h⟩ | ⟨rfl, h⟩ <;> rcases hcases m with h' | ⟨rfl, h'⟩ | ⟨rfl, h'⟩ <;>
      first
        | exact absurd h hn
        | exact absurd rfl hnm
        | rw [h, h']; decide
  · intro n hn
    rcases hcases n with h | ⟨-, h⟩ | ⟨-, h⟩
    · exact absurd h hn
    · rw [h]
      decide
    · rw [h]
      decide

end Addresses

end Klite
