import Klite.Net.Vip
import Klite.Safety.NetCatchUp

/-!
# The config push settles

The agent counts the VIPs of what it wants by their texts and the daemon those it has bound
by their addresses.
-/

namespace Klite
open Lib Netd

theorem vipList_length {net : NetDesired} {serial : ℕ} {cfg : NetConfig} (h : parseConfig net serial = .ok cfg) :
    cfg.vipList.length = uniqueVIPs net := by
  obtain ⟨hall, hnodup, hmem⟩ := parseConfig_inv h
  -- The text of a bound address is the one it was parsed from.
  have htext : ∀ svc ∈ net.services, ∀ a, Netip.parseAddr svc.vip = some a → svc.vip = a.string := by
    intro svc hsvc a ha
    obtain ⟨vip, hfine⟩ := hall svc hsvc
    obtain rfl := Option.mem_unique hfine.parses ha
    exact Netip.parseAddr_text ha hfine.is4
  have hinj : (cfg.vipList.map Netip.Addr.string).Nodup := by
    refine List.Nodup.map_on ?_ hnodup
    intro a ha b hb hab
    obtain ⟨svc, hsvc, hpa⟩ := (hmem a).mp ha
    obtain ⟨svc', hsvc', hpb⟩ := (hmem b).mp hb
    have hvip : svc.vip = svc'.vip := by rw [htext svc hsvc a hpa, hab, htext svc' hsvc' b hpb]
    rw [hvip, hpb] at hpa
    exact (Option.some.inj hpa).symm
  have hperm : (cfg.vipList.map Netip.Addr.string).Perm (net.services.map (·.vip)).dedup := by
    rw [List.perm_ext_iff_of_nodup hinj (List.nodup_dedup _)]
    intro t
    rw [List.mem_dedup, List.mem_map, List.mem_map]
    constructor
    · rintro ⟨a, ha, rfl⟩
      obtain ⟨svc, hsvc, hp⟩ := (hmem a).mp ha
      exact ⟨svc, hsvc, htext svc hsvc a hp⟩
    · rintro ⟨svc, hsvc, rfl⟩
      obtain ⟨vip, hfine⟩ := hall svc hsvc
      exact ⟨vip, (hmem vip).mpr ⟨svc, hsvc, hfine.parses⟩, (htext svc hsvc vip hfine.parses).symm⟩
  unfold uniqueVIPs
  rw [← hperm.length_eq, List.length_map]

namespace NetNode

-- The event leaves `desired` wanted and is no restart of the daemon.
def Keeps (desired : NetDesired) : NetEvent → Prop
  | .snapshot net => net.getD {} = desired
  | .restart => False
  | .sync _ => True

/-- The pass pushes what is wanted. -/
def Pushes (s : NetNode) : NetEvent → Prop
  | .sync _ => ∃ desired, s.agent.currentNet = some desired ∧ s.agent.needNetPush desired s.daemon.vipsBound
  | _ => False

/-- What is wanted was applied and is counted right. -/
structure AtRest (desired : NetDesired) (s : NetNode) : Prop where
  wanted : s.agent.currentNet = some desired
  applied : s.agent.appliedNet = some desired
  counted : s.daemon.vipsBound = uniqueVIPs desired

variable {desired : NetDesired} {s : NetNode}

theorem needless (h : AtRest desired s) : s.agent.needNetPush desired s.daemon.vipsBound = false := by
  rw [needNetPush_applied h.applied, h.counted]
  simp

theorem atRest_next {ev : NetEvent} (h : AtRest desired s) (hk : Keeps desired ev) :
    ¬ Pushes s ev ∧ AtRest desired (s.next ev) := by
  cases ev with
  | snapshot net =>
    refine ⟨id, ?_, h.applied, h.counted⟩
    show (if true then some (net.getD {}) else none) = some desired
    rw [if_pos rfl, show net.getD {} = desired from hk]
  | restart => exact hk.elim
  | sync rep =>
    constructor
    · rintro ⟨desired', hcur, hneed⟩
      obtain rfl := Option.mem_unique h.wanted hcur
      rw [needless h] at hneed
      cases hneed
    · have hnext : s.next (.sync rep) = ⟨s.agent.finishSync rep, s.daemon⟩ := by
        unfold next syncNet
        rw [h.wanted]
        dsimp only
        rw [needless h]
        rfl
      rw [hnext]
      exact ⟨h.wanted, h.applied, h.counted⟩

theorem atRest_run {evs : List NetEvent} (h : AtRest desired s) (hk : ∀ ev ∈ evs, Keeps desired ev) :
    Each next (fun s ev => ¬ Pushes s ev) s evs := by
  induction evs generalizing s with
  | nil => trivial
  | cons ev evs ih =>
    obtain ⟨hno, hnext⟩ := atRest_next h (hk ev List.mem_cons_self)
    exact ⟨hno, ih hnext fun ev' hev => hk ev' (List.mem_cons_of_mem _ hev)⟩

end NetNode

/-- A push of an accepted configuration binds its VIPs and no other /32 of the pool, touches nothing else on the interface, and is
counted as the agent counts: as long as the configuration is wanted and the daemon runs on, no pass pushes again. -/
theorem config_push_settles (order : List Netip.Addr → List Netip.Addr) (horder : ∀ l, (order l).Perm l) (s : Server)
    (desired : NetDesired) (cfg : NetConfig) (haccept : parseConfig desired ((s.serial + 1) % 2 ^ 32) = .ok cfg) :
    (s.applyConfig {} order desired).1 = .ok () ∧ (∀ a : IfAddr, a.ones = 32 → Netd.vipPool.contains a.ip →
      (a ∈ (s.applyConfig {} order desired).2.iface ↔ ∃ svc ∈ desired.services, Netip.parseAddr svc.vip = some a.ip)) ∧
    (∀ a : IfAddr, ¬ (a.ones = 32 ∧ Netd.vipPool.contains a.ip) →
      (a ∈ (s.applyConfig {} order desired).2.iface ↔ a ∈ s.iface)) ∧
    (s.applyConfig {} order desired).2.health = uniqueVIPs desired ∧
    ∀ agent : NetAgent, agent.currentNet = some desired →
      (agent.markNetApplied desired).needNetPush desired (s.applyConfig {} order desired).2.daemon.vipsBound = false ∧
      ∀ evs, (∀ ev ∈ evs, NetNode.Keeps desired ev) → Each NetNode.next (fun n ev => ¬ NetNode.Pushes n ev)
          ⟨agent.markNetApplied desired, (s.applyConfig {} order desired).2.daemon⟩ evs := by
  have happly : s.applyConfig {} order desired =
      (.ok (), Server.reconcileVIPs {} order { s with cfg := cfg, serial := (s.serial + 1) % 2 ^ 32 }) := by
    unfold Server.applyConfig
    dsimp only
    rw [haccept]
  have hpool : ∀ ip ∈ order cfg.vipList, Netd.vipPool.contains ip := fun ip hip => vipList_pool haccept ((horder _).mem_iff.mp hip)
  obtain ⟨hbound, hiface⟩ := bindVIPs_ok horder s.name s.iface (order cfg.vipList) hpool
  have hhealth : (s.applyConfig {} order desired).2.health = uniqueVIPs desired := by
    have hle := vipList_length_le haccept
    rw [happly, ← vipList_length haccept, Server.health_eq, Server.reconcileVIPs_eq]
    dsimp only
    rw [hbound, (horder _).length_eq, int32_self (by omega) (by omega)]
  have hiface' : ∀ a, a ∈ (s.applyConfig {} order desired).2.iface ↔
      if a.ones = 32 ∧ Netd.vipPool.contains a.ip then a.ip ∈ order cfg.vipList else a ∈ s.iface := by
    intro a
    rw [happly, Server.reconcileVIPs_eq]
    exact hiface a
  refine ⟨by rw [happly], ?_, ?_, hhealth, ?_⟩
  · intro a h32 hin
    rw [hiface', if_pos ⟨h32, hin⟩, (horder _).mem_iff]
    exact (parseConfig_inv haccept).2.2 a.ip
  · intro a hout
    rw [hiface', if_neg hout]
  · intro agent hcur
    have hrest : NetNode.AtRest desired ⟨agent.markNetApplied desired, (s.applyConfig {} order desired).2.daemon⟩ := by
      refine ⟨hcur, rfl, ?_⟩
      dsimp only
      rw [Server.daemon_vipsBound, ← Server.health_eq, hhealth, Int.toNat_natCast]
    exact ⟨NetNode.needless hrest, fun evs hk => NetNode.atRest_run hrest hk⟩

def boundBefore : Server :=
  { iface := [⟨⟨false, 170672135, ""⟩, 32⟩, ⟨⟨false, 170655755, ""⟩, 16⟩, ⟨⟨false, 170672136, ""⟩, 24⟩] }

def oneVIP : NetDesired := { services := [{ service := "web", vip := "10.44.64.8" }] }

theorem config_push_settles_one : (boundBefore.applyConfig {} id oneVIP).2.iface =
      [⟨⟨false, 170655755, ""⟩, 16⟩, ⟨⟨false, 170672136, ""⟩, 24⟩, ⟨⟨false, 170672136, ""⟩, 32⟩] ∧
    (boundBefore.applyConfig {} id oneVIP).2.health = 1 := by
  have hok : (parseConfig oneVIP 1).toOption.isSome := by decide +kernel
  cases hcfg : parseConfig oneVIP 1 with
  | error e =>
    rw [hcfg] at hok
    cases hok
  | ok cfg =>
    have h := config_push_settles id (fun l => List.Perm.refl l) boundBefore oneVIP cfg hcfg
    exact ⟨by decide +kernel, h.2.2.2.1.trans (by decide)⟩

end Klite
