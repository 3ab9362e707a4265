import Klite.Controller.Vip
import Klite.Controller.Settle

/-!
# The scheme of the VIP controller
-/

namespace Klite
open Lib

section Room

def vipAt (i : ℕ) : Netip.Addr := ⟨false, 170672128 + i, ""⟩

def usable (ip : Netip.Addr) : Bool := ip.bits % 256 ≠ 0 ∧ ip.bits % 256 ≠ 255

-- 10.44.64.1 to 10.44.127.254
@[irreducible] def vipRoom : List Netip.Addr := ((List.range 16383).map fun i => vipAt (1 + i)).filter usable

theorem contains_vipAt (i : ℕ) : vipPool.contains (vipAt i) ↔ i < 16384 := by
  simp [Netip.Prefix.contains, vipPool, vipAt, Netip.Addr.bitLen]
  omega

theorem vipAt_of_contains {ip : Netip.Addr} (h : vipPool.contains ip) : ∃ i < 16384, ip = vipAt i := by
  obtain ⟨is6, bits, zone⟩ := ip
  cases is6 with
  | true => simp [Netip.Prefix.contains, vipPool, Netip.Addr.bitLen] at h
  | false =>
    simp [Netip.Prefix.contains, vipPool, Netip.Addr.bitLen] at h
    obtain ⟨rfl, hbits⟩ := h
    refine ⟨bits - 170672128, by omega, ?_⟩
    simp only [vipAt, Netip.Addr.mk.injEq, true_and, and_true]
    omega

theorem vipAt_inj {i j : ℕ} (h : vipAt i = vipAt j) : i = j := by
  simp only [vipAt, Netip.Addr.mk.injEq, true_and, and_true] at h
  omega

theorem mem_vipRoom {ip : Netip.Addr} : ip ∈ vipRoom ↔ vipPool.contains ip ∧ usable ip := by
  unfold vipRoom
  rw [List.mem_filter, List.mem_map]
  constructor
  · rintro ⟨⟨i, hi, rfl⟩, hu⟩
    rw [List.mem_range] at hi
    exact ⟨(contains_vipAt _).mpr (by omega), hu⟩
  · rintro ⟨hc, hu⟩
    obtain ⟨i, hi, rfl⟩ := vipAt_of_contains hc
    refine ⟨?_, hu⟩
    have hpos : i ≠ 0 := by
      rintro rfl
      cases hu
    exact ⟨i - 1, List.mem_range.mpr (by omega), by congr 1; omega⟩

theorem vipRoom_nodup : vipRoom.Nodup := by
  unfold vipRoom
  apply List.Nodup.filter
  apply List.nodup_range.map
  intro i j hij
  have hij' := vipAt_inj hij
  omega

theorem usable_block (a : ℕ) : (List.range (256 * a)).countP (fun i => usable (vipAt i)) = 254 * a := by
  induction a with
  | zero => rfl
  | succ a ih =>
    have hshift : ∀ i : ℕ, usable (vipAt (256 * a + i)) = usable (vipAt i) := by
      intro i
      unfold usable
      rw [decide_eq_decide]
      simp only [vipAt]
      omega
    have hblock : (List.range 256).countP (fun i => usable (vipAt i)) = 254 := by decide +kernel
    rw [Nat.mul_succ, List.range_add, List.countP_append, ih, List.countP_map]
    simp only [Function.comp_def, hshift, hblock]
    omega

theorem range_succ_shift (n : ℕ) : List.range (n + 1) = 0 :: (List.range n).map fun i => 1 + i := by
  rw [List.range_succ_eq_map]
  congr 1
  apply List.map_congr_left
  intro i _
  exact Nat.add_comm i 1

theorem usable_from_one (n : ℕ) :
    ((List.range n).map fun i => vipAt (1 + i)).countP usable = (List.range (n + 1)).countP fun i => usable (vipAt i) := by
  have hzero : usable (vipAt 0) = false := by decide
  rw [range_succ_shift, List.countP_cons, List.countP_map, List.countP_map]
  simp [hzero, Function.comp_def]

theorem vipRoom_length : vipRoom.length = 16256 := by
  unfold vipRoom
  rw [← List.countP_eq_length_filter, usable_from_one]
  exact usable_block 64

theorem vipScan_pick (used : List Netip.Addr) {n m i : ℕ} (hn : n = m + 1) (h : i + m = 16384) :
    vipScan used n (vipAt i) = Repair.pick (((List.range m).map fun j => vipAt (i + j)).filter usable) used := by
  subst hn
  induction m generalizing i with
  | zero =>
    have hout : vipPool.contains (vipAt i) = false := by
      rw [Bool.eq_false_iff]
      intro hc
      have hlt := (contains_vipAt i).mp hc
      omega
    rw [vipScan, hout]
    rfl
  | succ m ih =>
    have hin : vipPool.contains (vipAt i) = true := (contains_vipAt i).mpr (by omega)
    have hmap : (List.range (m + 1)).map (fun j => vipAt (i + j)) =
        vipAt i :: (List.range m).map fun j => vipAt (i + 1 + j) := by
      rw [List.range_succ_eq_map, List.map_cons, List.map_map]
      congr 1
      apply List.map_congr_left
      intro j _
      simp only [Function.comp_apply, Nat.succ_eq_add_one]
      congr 1
      omega
    have hnext : (vipAt i).next = vipAt (i + 1) := by
      simp [Netip.Addr.next, vipAt, Nat.add_assoc]
    have hskip : skipVIP used (vipAt i) = (!usable (vipAt i) || decide (vipAt i ∈ used)) := by
      simp only [skipVIP, usable]
      by_cases hu : vipAt i ∈ used
      · simp [hu]
      · simp only [hu, or_false, decide_false, Bool.or_false]
        rw [← decide_not]
        congr 1
        simp only [eq_iff_iff]
        tauto
    rw [vipScan, hin, hskip, hmap, hnext, ih (by omega), List.filter_cons]
    cases hu : usable (vipAt i) with
    | false => simp
    | true =>
      by_cases hm : vipAt i ∈ used
      · simp [hm, Repair.pick]
      · simp [hm, Repair.pick]

theorem firstFree_pick (used : List Netip.Addr) : vipScan used 16384 vipPool.addr.next = Repair.pick vipRoom used := by
  have hfirst : vipPool.addr.next = vipAt 1 := by decide
  unfold vipRoom
  rw [hfirst, vipScan_pick used (m := 16383) (by omega) (by omega)]

theorem parse_vip {ip : Netip.Addr} (h : vipPool.contains ip) : Netip.parseAddr ip.string = some ip := by
  obtain ⟨i, hi, rfl⟩ := vipAt_of_contains h
  exact Netip.parseAddr_string (by omega)

end Room

section Scheme

def vipScheme : Scheme .vipAllocation VIPAllocationSpec Netip.Addr Unit where
  name sp := allocationName sp.service sp.node
  addr := fun (a : VIPAllocation) => Netip.parseAddr a.vip
  ok _ := fun (a : VIPAllocation) => (Netip.parseAddr a.vip).any vipPool.contains
  cls _ := ()
  room _ := vipRoom
  make := vipAllocation
  addr_meta _ _ := rfl
  ok_meta _ _ _ := rfl
  ok_addr := by
    intro sp (a : VIPAllocation) h
    obtain ⟨ip, hip, -⟩ := (Option.any_eq_true _ _).mp h
    exact ⟨ip, hip⟩
  make_name _ _ := rfl
  make_addr := by
    intro sp ip hip
    exact parse_vip (mem_vipRoom.mp hip).1
  make_ok := by
    intro sp ip hip
    have hin := (mem_vipRoom.mp hip).1
    exact (Option.any_eq_true _ _).mpr ⟨ip, parse_vip hin, hin⟩

theorem vip_scan (st : VipState) (a : VIPAllocation) :
    vipReconcileAllocation st a = if vipScheme.keeps st a then
        pure { st with want := st.want.erase a.metadata.name, used := (vipScheme.addr a).toList ++ st.used }
      else release .vipAllocation a.metadata.name a.metadata.resourceVersion
        { st with used := (vipScheme.addr a).toList ++ st.used } := by
  have hkeeps : vipScheme.keeps st a = ((st.want[a.metadata.name]?.any fun _ =>
      (Netip.parseAddr a.vip).any vipPool.contains) && (Netip.parseAddr a.vip).all fun d => d ∉ st.used) := rfl
  have haddr : vipScheme.addr a = Netip.parseAddr a.vip := rfl
  rw [hkeeps, haddr]
  unfold vipReconcileAllocation
  dsimp only
  cases hw : st.want[a.metadata.name]? with
  | none => simp [Table.erase_of_none hw]
  | some sp =>
    simp only [Table.insert_erase hw]
    cases hip : Netip.parseAddr a.vip with
    | none => simp
    | some ip =>
      by_cases hin : vipPool.contains ip
      · by_cases hu : ip ∈ st.used
        · simp [hin, hu]
        · simp [hin, hu]
      · simp [hin]

theorem vip_scanStep : vipScheme.ScanStep vipReconcileAllocation := scanStep_of vip_scan

theorem vip_allocateStep : vipScheme.AllocateStep vipAllocate := by
  apply allocateStep_of
  · intro st sp ip hp
    have hf : firstFreeVIP st.used = .ok ip := by
      unfold firstFreeVIP
      rw [firstFree_pick, show Repair.pick vipRoom st.used = some ip from hp]
    unfold vipAllocate
    rw [hf]
    rfl
  · intro st sp hp
    have hf : ∃ e, firstFreeVIP st.used = .error e := by
      unfold firstFreeVIP
      rw [firstFree_pick, show Repair.pick vipRoom st.used = none from hp]
      exact ⟨_, rfl⟩
    obtain ⟨e, he⟩ := hf
    unfold vipAllocate
    rw [he]
    exact ⟨_, rfl, rfl⟩

end Scheme

section Wanted
variable {s : Store}

def vipWants (s : Store) : Std.ExtTreeMap String VIPAllocationSpec :=
  vipWanted (s.listing .service) (s.listing .node)

theorem vipWants_some {n : String} {sp : VIPAllocationSpec} (h : (vipWants s)[n]? = some sp) :
    ∃ svc node, Holds s .service svc ∧ Holds s .node node ∧
      n = allocationName svc.metadata.name node.metadata.name ∧ sp = ⟨svc.metadata.name, node.metadata.name⟩ := by
  unfold vipWants vipWanted mapOf at h
  rcases Table.get_fill_some h with hm | hm
  · obtain ⟨svc, hsvc, hm⟩ := List.mem_flatMap.mp hm
    obtain ⟨node, hnode, he⟩ := List.mem_map.mp hm
    cases he
    exact ⟨svc, node, mem_listing.mp hsvc, mem_listing.mp hnode, rfl, rfl⟩
  · cases hm

theorem vipWants_name {n : String} {sp : VIPAllocationSpec} (h : (vipWants s)[n]? = some sp) :
    vipScheme.name sp = n ∧ validName n := by
  obtain ⟨svc, node, hsvc, hnode, rfl, rfl⟩ := vipWants_some h
  exact ⟨rfl, validName_pair (lookup_some hsvc).2.2.1 (lookup_some hnode).2.2.1⟩

theorem vipWants_pair {svc : Service} {node : Node} (hsvc : Holds s .service svc) (hnode : Holds s .node node) :
    ∃ sp, (vipWants s)[allocationName svc.metadata.name node.metadata.name]? = some sp := by
  unfold vipWants vipWanted mapOf
  apply Table.get_fill_isSome (v := ⟨svc.metadata.name, node.metadata.name⟩)
  refine List.mem_flatMap.mpr ⟨svc, mem_listing.mpr hsvc, ?_⟩
  exact List.mem_map.mpr ⟨node, mem_listing.mpr hnode, rfl⟩

theorem vipWants_length : (vipWants s).toList.length ≤ (s.listing .service).length * (s.listing .node).length := by
  unfold vipWants vipWanted mapOf
  apply (Table.length_fill_le _).trans
  simp [List.length_flatMap]

theorem vipWants_of_tbl {s' : Store} (h : ∀ k, k ≠ .vipAllocation → s'.tbl k = s.tbl k) : vipWants s' = vipWants s := by
  have hsvc : s'.listing .service = s.listing .service := listing_of_tbl (h .service (by decide))
  have hnode : s'.listing .node = s.listing .node := listing_of_tbl (h .node (by decide))
  unfold vipWants
  rw [hsvc, hnode]

end Wanted

theorem solo_vipReconcile (w : World) :
    Alone (fun _ w' => Outcome vipScheme (vipWants w.store) w.store w'.store) vipReconcile w := by
  unfold vipReconcile
  apply solo_list
  apply solo_list
  apply solo_list
  exact solo_repairPass vip_scanStep vip_allocateStep _ (fun _ _ h => vipWants_name h) w

end Klite
