import Klite.Controller.VipSpec
import Mathlib.Data.List.Dedup

/-!
# The VIP allocator repairs any store (internal/controller/vip.go)

A pass of the controller that is alone leaves one allocation at most for each pair of a
service and a node, every address inside the pool and no address twice, whatever the store
held before.
-/

namespace Klite
open Lib

section Repaired

/- What an undisturbed pass leaves. -/
structure VipRepaired (s s' : Store) : Prop where
  belongs : ∀ a, Holds s' .vipAllocation a → ∃ svc node, Holds s .service svc ∧ Holds s .node node ∧
    a.metadata.name = allocationName svc.metadata.name node.metadata.name
  inPool : ∀ a, Holds s' .vipAllocation a → ∃ ip, Netip.parseAddr a.vip = some ip ∧ vipPool.contains ip
  distinct : ∀ a a', Holds s' .vipAllocation a → Holds s' .vipAllocation a' →
    Netip.parseAddr a.vip = Netip.parseAddr a'.vip → a = a'
  minted : ∀ a, Holds s' .vipAllocation a → ¬ Holds s .vipAllocation a →
    ∃ ip, Netip.parseAddr a.vip = some ip ∧ ip.bits % 256 ≠ 0 ∧ ip.bits % 256 ≠ 255
  untouched : ∀ a svc node ip, Holds s .vipAllocation a → Holds s .service svc → Holds s .node node →
    a.metadata.name = allocationName svc.metadata.name node.metadata.name →
    Netip.parseAddr a.vip = some ip → vipPool.contains ip →
    (∀ a', Holds s .vipAllocation a' → a'.metadata.name < a.metadata.name → Netip.parseAddr a'.vip ≠ some ip) →
    Holds s' .vipAllocation a
  others : ∀ k, k ≠ .vipAllocation → s'.tbl k = s.tbl k

-- Each pair has its allocation, and no two pairs share one.
def EachPair (s s' : Store) : Prop :=
  ∀ svc node, Holds s .service svc → Holds s .node node →
    (∃! a, Holds s' .vipAllocation a ∧ a.metadata.name = allocationName svc.metadata.name node.metadata.name) ∧
    ∀ svc' node', Holds s .service svc' → Holds s .node node' →
      allocationName svc.metadata.name node.metadata.name = allocationName svc'.metadata.name node'.metadata.name →
      svc = svc' ∧ node = node'

def pairCount (s : Store) : ℕ := (s.listing .service).length * (s.listing .node).length

def usableSeen (s : Store) : List Netip.Addr :=
  (((s.listing .vipAllocation).filterMap fun a => Netip.parseAddr a.vip).filter fun ip =>
    vipPool.contains ip && usable ip).dedup

variable {s s' : Store}

theorem vip_repaired (ho : Outcome vipScheme (vipWants s) s s') : VipRepaired s s' := by
  have hpool : ∀ a, Holds s' .vipAllocation a → ∃ ip, Netip.parseAddr a.vip = some ip ∧ vipPool.contains ip := by
    intro a ha
    obtain ⟨_, _, hok⟩ := outcome_ok ho ha
    exact (Option.any_eq_true _ _).mp hok
  refine ⟨?_, hpool, ?_, ?_, ?_, ho.others⟩
  · intro a ha
    obtain ⟨sp, hsp, -⟩ := outcome_ok ho ha
    obtain ⟨svc, node, hsvc, hnode, hn, -⟩ := vipWants_some hsp
    exact ⟨svc, node, hsvc, hnode, hn⟩
  · intro a a' ha ha' hsame
    obtain ⟨ip, hip, -⟩ := hpool a ha
    exact outcome_distinct ho ha ha' hip (hsame.symm.trans hip)
  · intro a ha hnew
    obtain ⟨_, ip, _, hroom, hip, -⟩ := outcome_new ho ha hnew
    exact ⟨ip, hip, of_decide_eq_true (mem_vipRoom.mp hroom).2⟩
  · intro a svc node ip ha hsvc hnode hname hip hin hfirst
    obtain ⟨sp, hsp⟩ := vipWants_pair hsvc hnode
    rw [← hname] at hsp
    apply outcome_untouched ho ha hsp
    · exact (Option.any_eq_true _ _).mpr ⟨ip, hip, hin⟩
    · intro a' ha' hlt heq
      exact hfirst a' ha' hlt (heq.trans hip)

end Repaired

section Converge
variable {s s' : Store}

theorem dot_not_label {n : String} (h : dnsLabel n) : '.' ∉ n.toList := by
  intro hin
  have hdot := label_chars h hin
  revert hdot
  decide

theorem eachPair_of_served (hdns : ∀ svc, Holds s .service svc → dnsLabel svc.metadata.name)
    (h : Served (vipWants s) .vipAllocation s') : EachPair s s' := by
  intro svc node hsvc hnode
  constructor
  · obtain ⟨sp, hsp⟩ := vipWants_pair hsvc hnode
    obtain ⟨a, ha, hn⟩ := h _ sp hsp
    refine ⟨a, ⟨ha, hn⟩, ?_⟩
    rintro a' ⟨ha', hn'⟩
    exact holds_inj ha' ha (hn'.trans hn.symm)
  · intro svc' node' hsvc' hnode' hname
    obtain ⟨hs, hn⟩ := pair_inj (dot_not_label (hdns svc hsvc)) (dot_not_label (hdns svc' hsvc')) hname
    exact ⟨holds_inj hsvc hsvc' hs, holds_inj hnode hnode' hn⟩

theorem wanted_le : (vipWants s).toList.countP (fun e => vipScheme.cls e.2 = ()) ≤ pairCount s :=
  List.countP_le_length.trans vipWants_length

theorem vip_served (hfew : pairCount s ≤ 16256) {s₁ s₂ : Store} (hs : Settled vipScheme (vipWants s) s₁)
    (ho : Outcome vipScheme (vipWants s) s₁ s₂) : Served (vipWants s) .vipAllocation s₂ := by
  intro n sp hsp
  apply settled_served (c := ()) vipRoom_nodup (fun _ hne => absurd rfl hne) hs ho (fun _ _ _ _ _ _ => rfl) _ hsp rfl
  have hlen : (vipScheme.room ()).length = 16256 := vipRoom_length
  have hle := wanted_le (s := s)
  omega

theorem room_seen : vipRoom.countP (fun ip => ip ∈ vipScheme.seen (s.listing .vipAllocation)) ≤ (usableSeen s).length := by
  have hsub : vipRoom.filter (fun ip => ip ∈ vipScheme.seen (s.listing .vipAllocation)) ⊆ usableSeen s := by
    intro ip hip
    obtain ⟨hroom, hseen⟩ := List.mem_filter.mp hip
    obtain ⟨a, ha, had⟩ := mem_seen.mp (of_decide_eq_true hseen)
    unfold usableSeen
    rw [List.mem_dedup, List.mem_filter]
    refine ⟨List.mem_filterMap.mpr ⟨a, mem_listing.mpr ha, had⟩, ?_⟩
    rw [Bool.and_eq_true]
    exact mem_vipRoom.mp hroom
  have hlen := ((vipRoom_nodup.filter _).subperm hsub).length_le
  rw [← List.countP_eq_length_filter] at hlen
  exact hlen

theorem vip_served_once (hfew : pairCount s + (usableSeen s).length ≤ 16256)
    (ho : Outcome vipScheme (vipWants s) s s') : Served (vipWants s) .vipAllocation s' := by
  intro n sp hsp
  apply outcome_served (c := ()) vipRoom_nodup (fun _ hne => absurd rfl hne) ho _ hsp rfl
  have hlen : (vipScheme.room ()).length = 16256 := vipRoom_length
  have hseen : (vipScheme.room ()).countP (fun ip => ip ∈ vipScheme.seen (s.listing .vipAllocation)) ≤
      (usableSeen s).length := room_seen
  have hle := wanted_le (s := s)
  omega

theorem vip_quiet (hs : Settled vipScheme (vipWants s) s') (hall : Served (vipWants s) .vipAllocation s')
    (htbl : ∀ k, k ≠ .vipAllocation → s'.tbl k = s.tbl k) {w : World} (hw : w.store = s') :
    Alone (fun _ w' => w'.store = s') vipReconcile w := by
  subst hw
  apply solo_mono _ (solo_vipReconcile w)
  intro _ w' ho
  rw [vipWants_of_tbl htbl] at ho
  exact settled_quiet hs hall ho

/- The first pass repairs the store. With no more pairs than usable addresses the second
serves every pair and a further one writes nothing; where the listed addresses leave room
as well, that is so after the first. -/
theorem vip_repair (w : World) (hsvc : ∀ svc, Holds w.store .service svc → dnsLabel svc.metadata.name) :
    Alone (fun _ w₁ => VipRepaired w.store w₁.store ∧ (pairCount w.store ≤ 16256 → ∀ w₁', w₁'.store = w₁.store →
        Alone (fun _ w₂ => VipRepaired w₁.store w₂.store ∧ EachPair w.store w₂.store ∧ ∀ w₂', w₂'.store = w₂.store →
            Alone (fun _ w₃ => w₃.store = w₂.store) vipReconcile w₂') vipReconcile w₁') ∧
      (pairCount w.store + (usableSeen w.store).length ≤ 16256 → EachPair w.store w₁.store ∧
        ∀ w₁', w₁'.store = w₁.store → Alone (fun _ w₂ => w₂.store = w₁.store) vipReconcile w₁')) vipReconcile w := by
  apply solo_mono _ (solo_vipReconcile w)
  intro _ w₁ ho₁
  refine ⟨vip_repaired ho₁, ?_, ?_⟩
  · intro hfew w₁' hw₁
    apply solo_mono _ (solo_vipReconcile w₁')
    intro _ w₂ ho₂
    rw [hw₁] at ho₂
    have hrepaired := vip_repaired ho₂
    rw [vipWants_of_tbl ho₁.others] at ho₂
    have hserved := vip_served hfew (outcome_settled ho₁) ho₂
    refine ⟨hrepaired, eachPair_of_served hsvc hserved, ?_⟩
    intro w₂' hw₂
    apply vip_quiet (outcome_settled ho₂) hserved _ hw₂
    intro k hk
    rw [ho₂.others k hk, ho₁.others k hk]
  · intro hfew
    have hserved := vip_served_once hfew ho₁
    refine ⟨eachPair_of_served hsvc hserved, ?_⟩
    intro w₁' hw₁
    exact vip_quiet (outcome_settled ho₁) hserved ho₁.others hw₁

end Converge

section Runs

def strayWorld : World :=
  ⟨((((Store.empty.put 7 .service { metadata := { name := "web" } } revCreate).2.put 7 .node
    { metadata := { name := "a" } } revCreate).2.put 7 .vipAllocation
    { metadata := { name := "web.a" }, vip := "10.9.9.9" } revCreate).2.put 7 .vipAllocation
    { metadata := { name := "old.a" }, vip := "10.44.64.1" } revCreate).2, 7 * second⟩

def vipOf (w : World) (n : String) : Option String :=
  (w.store.lookup .vipAllocation n).map fun e => VIPAllocation.vip e.1

def vipPass (w : World) : Option (List String) × World := vipReconcile.eval klited calm w

theorem stray_facts : (strayWorld.store.listing .service).all (fun svc => dnsLabel svc.metadata.name) ∧
    pairCount strayWorld.store + (usableSeen strayWorld.store).length ≤ 16256 ∧
    vipOf (vipPass strayWorld).2 "web.a" = some "10.44.64.2" ∧ vipOf (vipPass strayWorld).2 "old.a" = none := by
  decide +kernel

theorem vip_repair_stray : vipOf (vipPass strayWorld).2 "web.a" = some "10.44.64.2" ∧
    vipOf (vipPass strayWorld).2 "old.a" = none ∧ VipRepaired strayWorld.store (vipPass strayWorld).2.store ∧
    EachPair strayWorld.store (vipPass strayWorld).2.store ∧
    (vipPass (vipPass strayWorld).2).2.store = (vipPass strayWorld).2.store := by
  obtain ⟨hdns, hfew, hvip, hold⟩ := stray_facts
  obtain ⟨_, _, hrepaired, -, honce⟩ := solo_eval _ _ calm calm_reliable
    (vip_repair strayWorld fun svc hsvc => List.all_eq_true.mp hdns svc (mem_listing.mpr hsvc))
  obtain ⟨heach, hquiet⟩ := honce hfew
  obtain ⟨_, _, hsame⟩ := solo_eval _ _ calm calm_reliable (hquiet (vipPass strayWorld).2 rfl)
  exact ⟨hvip, hold, hrepaired, heach, hsame⟩

end Runs

end Klite
