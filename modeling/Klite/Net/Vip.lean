import Klite.Net.Daemon
import Klite.Store.Calls
import Mathlib.Data.List.Dedup

/-!
# Binding the service VIPs (internal/netd/vip.go, server.go)

The daemon with the interface its VIPs are on. A push makes the /32 addresses of the pool
on the interface those of the configuration and leaves the others alone.
-/

namespace Klite.Netd
open Lib

/-- An address of an interface with the length of its mask. -/
structure IfAddr where
  ip : Netip.Addr
  ones : ℕ
  deriving DecidableEq

abbrev Interface := List IfAddr

def vipAddr (ip : Netip.Addr) : IfAddr := ⟨ip, 32⟩

-- An address that is there already is not added again.
def addrAdd (iface : Interface) (a : IfAddr) : Interface := if a ∈ iface then iface else iface ++ [a]

def addrDel (iface : Interface) (a : IfAddr) : Interface := iface.filter (· ≠ a)

/-- What the calls to netlink fail with; EEXIST and ENOENT do not count. -/
structure Netlink where
  linkByName : Option String := none
  addrList : Option String := none
  add : Netip.Addr → Option String := fun _ => none
  del : Netip.Addr → Option String := fun _ => none

def heldVIPs (iface : Interface) : List Netip.Addr :=
  ((iface.filter fun a => !a.ip.is6 && a.ones = 32 && vipPool.contains a.ip).map (·.ip)).dedup

structure Binding where
  bound : ℕ := 0
  errs : List String := []
  iface : Interface

section Bind
variable (nl : Netlink)

def bindOne (held : List Netip.Addr) (b : Binding) (ip : Netip.Addr) : Binding :=
  if ip ∈ held then { b with bound := b.bound + 1 }
  else match nl.add ip with
    | some e => { b with errs := b.errs ++ ["add " ++ ip.string ++ ": " ++ e] }
    | none => { b with bound := b.bound + 1, iface := addrAdd b.iface (vipAddr ip) }

def dropOne (want : List Netip.Addr) (b : Binding) (ip : Netip.Addr) : Binding :=
  if ip ∈ want then b
  else match nl.del ip with
    | some e => { b with errs := b.errs ++ ["del " ++ ip.string ++ ": " ++ e] }
    | none => { b with iface := addrDel b.iface (vipAddr ip) }

-- The loop over what is held follows the order of a map.
def bindVIPs (order : List Netip.Addr → List Netip.Addr) (name : String) (iface : Interface) (want : List Netip.Addr) :
    Binding :=
  match nl.linkByName with
  | some e => { errs := ["link " ++ name ++ ": " ++ e], iface := iface }
  | none =>
    match nl.addrList with
    | some e => { errs := ["addr list " ++ name ++ ": " ++ e], iface := iface }
    | none => (order (heldVIPs iface)).foldl (dropOne nl want) (want.foldl (bindOne nl (heldVIPs iface)) { iface := iface })

end Bind

structure Server where
  name : String := "eth0"
  cfg : NetConfig := emptyConfig
  serial : ℕ := 0
  vipsBound : Int := 0
  iface : Interface := []

namespace Server
variable (nl : Netlink) (order : List Netip.Addr → List Netip.Addr) (s : Server)

/- The errors are only logged. The list of VIPs comes in the order of a map too. -/
def reconcileVIPs : Server :=
  let b := bindVIPs nl order s.name s.iface (order s.cfg.vipList)
  { s with vipsBound := int32 b.bound, iface := b.iface }

def applyConfig (net : NetDesired) : Except String Unit × Server :=
  let serial := (s.serial + 1) % 2 ^ 32
  match parseConfig net serial with
  | .error e => (.error ("net config: " ++ e), { s with serial := serial })
  | .ok cfg => (.ok (), reconcileVIPs nl order { s with cfg := cfg, serial := serial })

/-- `Health`, as far as the VIPs go. -/
def health : Int := s.vipsBound

def daemon : Daemon := ⟨s.cfg, s.serial, s.vipsBound.toNat⟩

theorem reconcileVIPs_eq : s.reconcileVIPs nl order =
    { s with
      vipsBound := int32 (bindVIPs nl order s.name s.iface (order s.cfg.vipList)).bound
      iface := (bindVIPs nl order s.name s.iface (order s.cfg.vipList)).iface } := rfl

theorem health_eq : s.health = s.vipsBound := rfl

theorem daemon_vipsBound : s.daemon.vipsBound = s.vipsBound.toNat := rfl

end Server

/-! ### What is on the interface afterwards -/

section Members
variable {iface : Interface} {a b : IfAddr}

theorem mem_addrAdd : b ∈ addrAdd iface a ↔ b ∈ iface ∨ b = a := by
  unfold addrAdd
  split
  · next h =>
    refine ⟨.inl, ?_⟩
    rintro (hb | rfl)
    · exact hb
    · exact h
  · rw [List.mem_append, List.mem_singleton]

theorem mem_addrDel : b ∈ addrDel iface a ↔ b ∈ iface ∧ b ≠ a := by
  unfold addrDel
  rw [List.mem_filter, decide_eq_true_iff]

theorem mem_heldVIPs {ip : Netip.Addr} : ip ∈ heldVIPs iface ↔ vipAddr ip ∈ iface ∧ vipPool.contains ip := by
  unfold heldVIPs
  simp only [List.mem_dedup, List.mem_map, List.mem_filter, Bool.and_eq_true, decide_eq_true_eq, Bool.not_eq_true']
  constructor
  · rintro ⟨⟨ip', ones⟩, ⟨hmem, ⟨-, rfl⟩, hpool⟩, rfl⟩
    exact ⟨hmem, hpool⟩
  · rintro ⟨hmem, hpool⟩
    exact ⟨vipAddr ip, ⟨hmem, ⟨Netip.contains_is4 rfl hpool, rfl⟩, hpool⟩, rfl⟩

end Members

section Bound
variable (held want : List Netip.Addr)

theorem bindOne_ok (b : Binding) (ip : Netip.Addr) : (bindOne {} held b ip).bound = b.bound + 1 ∧
    ∀ a, a ∈ (bindOne {} held b ip).iface ↔ a ∈ b.iface ∨ (ip ∉ held ∧ a = vipAddr ip) := by
  unfold bindOne
  split
  · next h => exact ⟨rfl, fun a => by simp [h]⟩
  · next h => exact ⟨rfl, fun a => by rw [mem_addrAdd]; simp [h]⟩

theorem bind_ok (l : List Netip.Addr) (b : Binding) : (l.foldl (bindOne {} held) b).bound = b.bound + l.length ∧
    ∀ a, a ∈ (l.foldl (bindOne {} held) b).iface ↔ a ∈ b.iface ∨ ∃ ip ∈ l, ip ∉ held ∧ a = vipAddr ip := by
  induction l generalizing b with
  | nil => simp
  | cons ip l ih =>
    obtain ⟨hone, hmem⟩ := bindOne_ok held b ip
    obtain ⟨hbound, hall⟩ := ih (bindOne {} held b ip)
    rw [List.foldl_cons]
    refine ⟨by rw [hbound, hone, List.length_cons]; omega, fun a => ?_⟩
    rw [hall, hmem]
    simp only [List.mem_cons, exists_eq_or_imp, or_assoc]

theorem dropOne_ok (b : Binding) (ip : Netip.Addr) : (dropOne {} want b ip).bound = b.bound ∧
    ∀ a, a ∈ (dropOne {} want b ip).iface ↔ a ∈ b.iface ∧ ¬ (ip ∉ want ∧ a = vipAddr ip) := by
  unfold dropOne
  split
  · next h => exact ⟨rfl, fun a => by simp [h]⟩
  · next h => exact ⟨rfl, fun a => by rw [mem_addrDel]; simp [h]⟩

theorem drop_ok (l : List Netip.Addr) (b : Binding) : (l.foldl (dropOne {} want) b).bound = b.bound ∧
    ∀ a, a ∈ (l.foldl (dropOne {} want) b).iface ↔ a ∈ b.iface ∧ ¬ ∃ ip ∈ l, ip ∉ want ∧ a = vipAddr ip := by
  induction l generalizing b with
  | nil => simp
  | cons ip l ih =>
    obtain ⟨hone, hmem⟩ := dropOne_ok want b ip
    obtain ⟨hbound, hall⟩ := ih (dropOne {} want b ip)
    rw [List.foldl_cons]
    refine ⟨hbound.trans hone, fun a => ?_⟩
    rw [hall, hmem]
    simp only [List.mem_cons, exists_eq_or_imp, not_or, and_assoc]

end Bound

variable {order : List Netip.Addr → List Netip.Addr}

theorem bindVIPs_ok (horder : ∀ l, (order l).Perm l) (name : String) (iface : Interface) (want : List Netip.Addr)
    (hpool : ∀ ip ∈ want, vipPool.contains ip) : (bindVIPs {} order name iface want).bound = want.length ∧
    ∀ a, a ∈ (bindVIPs {} order name iface want).iface ↔
      if a.ones = 32 ∧ vipPool.contains a.ip then a.ip ∈ want else a ∈ iface := by
  obtain ⟨hbound, hmem⟩ := bind_ok (heldVIPs iface) want { iface := iface }
  obtain ⟨hbound', hmem'⟩ := drop_ok want (order (heldVIPs iface)) (want.foldl (bindOne {} (heldVIPs iface)) { iface := iface })
  refine ⟨hbound'.trans (hbound.trans (Nat.zero_add _)), fun a => ?_⟩
  show a ∈ ((order (heldVIPs iface)).foldl (dropOne {} want) (want.foldl (bindOne {} (heldVIPs iface)) { iface := iface })).iface ↔ _
  rw [hmem', hmem]
  simp only [(horder (heldVIPs iface)).mem_iff, mem_heldVIPs]
  obtain ⟨ip, ones⟩ := a
  split
  · next h =>
    obtain ⟨rfl, hin⟩ := h
    constructor
    · rintro ⟨hor, hkept⟩
      by_contra hnot
      rcases hor with hmem | ⟨ip', hw, -, he⟩
      · exact hkept ⟨ip, ⟨hmem, hin⟩, hnot, rfl⟩
      · cases he
        exact hnot hw
    · intro hw
      refine ⟨?_, ?_⟩
      · by_cases hmem : vipAddr ip ∈ iface
        · exact .inl hmem
        · exact .inr ⟨ip, hw, fun hheld => hmem hheld.1, rfl⟩
      · rintro ⟨ip', -, hnot, he⟩
        cases he
        exact hnot hw
  · next h =>
    -- The loops touch /32 addresses of the pool only.
    constructor
    · rintro ⟨hmem | ⟨ip', hw, -, he⟩, -⟩
      · exact hmem
      · cases he
        exact absurd ⟨rfl, hpool ip hw⟩ h
    · intro hmem
      refine ⟨.inl hmem, ?_⟩
      rintro ⟨ip', ⟨-, hin⟩, -, he⟩
      cases he
      exact h ⟨rfl, hin⟩

/-! ### The counts -/

section Accepted
variable {net : NetDesired} {serial : ℕ} {cfg : NetConfig}

theorem addService_inv {vips vips' : Std.ExtTreeMap String Netip.Addr} {svc : ServiceVIP} (h : addService vips svc = .ok vips') :
    ∃ vip, Fine svc vip ∧ vips[toLower svc.service]? = none ∧ vips' = vips.insert (toLower svc.service) vip := by
  unfold addService at h
  split at h
  · cases h
  · next hname =>
    dsimp only at h
    split at h
    · cases h
    · next hlabel =>
      split at h
      · cases h
      · next hnew =>
        split at h
        · cases h
        · next vip hparse =>
          split at h
          · cases h
          · next hpool =>
            simp only [Bool.or_eq_true, Bool.not_eq_true', not_or, Bool.not_eq_true, Bool.not_eq_false] at hlabel hpool
            refine ⟨vip, ⟨hname, hlabel, hparse, hpool.1, hpool.2⟩, ?_, (Except.ok.inj h).symm⟩
            simpa using hnew

theorem addServices_inv {l : List ServiceVIP} {vips vips' : Std.ExtTreeMap String Netip.Addr}
    (h : l.foldlM addService vips = .ok vips') : (∀ svc ∈ l, ∃ vip, Fine svc vip) ∧ ∀ (k : String) a,
      vips'[k]? = some a ↔ vips[k]? = some a ∨ ∃ svc ∈ l, toLower svc.service = k ∧ Netip.parseAddr svc.vip = some a := by
  induction l generalizing vips with
  | nil =>
    cases h
    simp
  | cons svc l ih =>
    rw [List.foldlM_cons] at h
    cases hone : addService vips svc with
    | error e =>
      rw [hone] at h
      cases h
    | ok vips₁ =>
      rw [hone] at h
      obtain ⟨vip, hfine, hnew, rfl⟩ := addService_inv hone
      obtain ⟨hall, hkeys⟩ := ih h
      refine ⟨List.forall_mem_cons.mpr ⟨⟨vip, hfine⟩, hall⟩, fun k a => ?_⟩
      rw [hkeys, Table.get_insert]
      simp only [List.mem_cons, exists_eq_or_imp, hfine.parses, ← or_assoc, Option.some.injEq]
      refine or_congr_left ?_
      split
      · rename_i hk
        subst hk
        simp [hnew]
      · rename_i hk
        simp [hk]

theorem parseConfig_keys (h : parseConfig net serial = .ok cfg) :
    ((∀ svc ∈ net.services, ∃ vip, Fine svc vip) ∧ cfg.vipList = (cfg.vips.toList.map (·.2)).dedup) ∧ ∀ (k : String) a,
      cfg.vips[k]? = some a ↔ ∃ svc ∈ net.services, toLower svc.service = k ∧ Netip.parseAddr svc.vip = some a := by
  unfold parseConfig at h
  cases hfold : net.services.foldlM addService ∅ with
  | error e =>
    rw [hfold] at h
    cases h
  | ok vips =>
    rw [hfold] at h
    cases h
    obtain ⟨hall, hkeys⟩ := addServices_inv hfold
    exact ⟨⟨hall, rfl⟩, by simpa using hkeys⟩

theorem parseConfig_inv (h : parseConfig net serial = .ok cfg) : (∀ svc ∈ net.services, ∃ vip, Fine svc vip) ∧
    cfg.vipList.Nodup ∧ ∀ a, a ∈ cfg.vipList ↔ ∃ svc ∈ net.services, Netip.parseAddr svc.vip = some a := by
  obtain ⟨⟨hall, hlist⟩, hkeys⟩ := parseConfig_keys h
  refine ⟨hall, hlist ▸ List.nodup_dedup _, fun a => ?_⟩
  rw [hlist]
  simp only [List.mem_dedup, List.mem_map, Prod.exists, Table.mem_toList, exists_eq_right, hkeys]
  rw [exists_comm]
  simp

theorem vipList_pool (h : parseConfig net serial = .ok cfg) {ip : Netip.Addr} (hip : ip ∈ cfg.vipList) :
    vipPool.contains ip := by
  obtain ⟨hall, -, hmem⟩ := parseConfig_inv h
  obtain ⟨svc, hsvc, hparse⟩ := (hmem ip).mp hip
  obtain ⟨vip, hfine⟩ := hall svc hsvc
  obtain rfl := Option.mem_unique hfine.parses hparse
  exact hfine.inPool

theorem vipPool_bits {ip : Netip.Addr} (h : vipPool.contains ip) :
    ip = ⟨false, ip.bits, ""⟩ ∧ 170672128 ≤ ip.bits ∧ ip.bits < 170688512 := by
  have h4 := Netip.contains_is4 (p := vipPool) rfl h
  obtain ⟨is6, bits, zone⟩ := ip
  obtain rfl : is6 = false := h4
  have hsize : 2 ^ (Netip.Addr.bitLen ⟨false, bits, zone⟩ - vipPool.bits) = 16384 := rfl
  have hnet : vipPool.addr.bits / 16384 = 10417 := rfl
  unfold Netip.Prefix.contains at h
  rw [Bool.and_eq_true, Bool.and_eq_true, decide_eq_true_eq, decide_eq_true_eq, decide_eq_true_eq, hsize, hnet] at h
  obtain ⟨⟨rfl, -⟩, hbits⟩ := h
  have hdiv : bits / 16384 = 10417 := hbits
  refine ⟨rfl, ?_, ?_⟩ <;> dsimp only <;> omega

theorem vipList_length_le (h : parseConfig net serial = .ok cfg) : cfg.vipList.length ≤ 16384 := by
  have hpool : ∀ ip ∈ cfg.vipList, ip = ⟨false, ip.bits, ""⟩ ∧ 170672128 ≤ ip.bits ∧ ip.bits < 170688512 :=
    fun ip hip => vipPool_bits (vipList_pool h hip)
  have hnodup : (cfg.vipList.map fun ip => ip.bits - 170672128).Nodup := by
    refine List.Nodup.map_on ?_ (parseConfig_inv h).2.1
    intro ip hip ip' hip' he
    obtain ⟨heq, hge, -⟩ := hpool ip hip
    obtain ⟨heq', hge', -⟩ := hpool ip' hip'
    rw [heq, heq', show ip.bits = ip'.bits by omega]
  have hsub : (cfg.vipList.map fun ip => ip.bits - 170672128) ⊆ List.range 16384 := by
    intro n hn
    obtain ⟨ip, hip, rfl⟩ := List.mem_map.mp hn
    obtain ⟨-, hge, hlt⟩ := hpool ip hip
    rw [List.mem_range]
    omega
  have hlen := (hnodup.subperm hsub).length_le
  rwa [List.length_map, List.length_range] at hlen

end Accepted

/-- Without faults a push does to the daemon what `Daemon.applyConfig` does. -/
theorem applyConfig_daemon (horder : ∀ l, (order l).Perm l) (s : Server) (net : NetDesired) :
    ((s.applyConfig {} order net).1, (s.applyConfig {} order net).2.daemon) = s.daemon.applyConfig net := by
  have hserial : s.daemon.nextSerial = (s.serial + 1) % 2 ^ 32 := rfl
  unfold Server.applyConfig Daemon.applyConfig
  dsimp only
  rw [hserial]
  cases hp : parseConfig net ((s.serial + 1) % 2 ^ 32) with
  | error e => rfl
  | ok cfg =>
    have hpool : ∀ ip ∈ order cfg.vipList, vipPool.contains ip := fun ip hip => vipList_pool hp ((horder _).mem_iff.mp hip)
    have hbound : (bindVIPs {} order s.name s.iface (order cfg.vipList)).bound = cfg.vipList.length :=
      (bindVIPs_ok horder _ _ _ hpool).1.trans (horder _).length_eq
    have hle := vipList_length_le hp
    have hcount : (int32 (bindVIPs {} order s.name s.iface (order cfg.vipList)).bound).toNat = cfg.vipList.length := by
      rw [hbound, int32_self (by omega) (by omega)]
      rfl
    simp only [Server.reconcileVIPs, Server.daemon, hcount]

/-- In any sequence of pushes the daemon on its interface answers and holds what the plain one does. -/
theorem pushes_daemon (horder : ∀ l, (order l).Perm l) (s : Server) (nets : List NetDesired) (net : NetDesired) :
    let s' := nets.foldl (fun s net => (s.applyConfig {} order net).2) s
    let d' := nets.foldl (fun d net => (d.applyConfig net).2) s.daemon
    s'.daemon = d' ∧ (s'.applyConfig {} order net).1 = (d'.applyConfig net).1 := by
  have hrun : ∀ s : Server, (nets.foldl (fun s net => (s.applyConfig {} order net).2) s).daemon =
      nets.foldl (fun d net => (d.applyConfig net).2) s.daemon := by
    induction nets with
    | nil => exact fun _ => rfl
    | cons n nets ih =>
      intro s
      have hone := congrArg Prod.snd (applyConfig_daemon horder s n)
      exact (ih _).trans (congrArg (nets.foldl _) hone)
  dsimp only
  rw [← hrun s]
  exact ⟨rfl, congrArg Prod.fst (applyConfig_daemon horder _ net)⟩

theorem pushes_daemon_two :
    ((({} : Server).applyConfig {} id { services := [{ service := "web", vip := "10.44.64.8" }] }).2.applyConfig {} id {}).1 = .ok () :=
  (pushes_daemon (fun l => .refl (id l)) {} [{ services := [{ service := "web", vip := "10.44.64.8" }] }] {}).2

end Klite.Netd
