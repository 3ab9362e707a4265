import Klite.Controller.Ingress
import Klite.Controller.Settle

/-!
# The scheme of the ingress controller
-/

namespace Klite
open Lib

section Slice

def ports (lo hi : Int) : List Int := (List.range (hi - lo).toNat).map fun i : ℕ => lo + (i : Int)

def slice (range : Option (Int × Int)) : List Int := range.elim [] fun r => ports r.1 r.2

theorem mem_ports {lo hi p : Int} : p ∈ ports lo hi ↔ lo ≤ p ∧ p < hi := by
  unfold ports
  simp only [List.mem_map, List.mem_range]
  constructor
  · rintro ⟨i, hi', rfl⟩
    omega
  · intro h
    exact ⟨(p - lo).toNat, by omega, by omega⟩

theorem ports_nodup (lo hi : Int) : (ports lo hi).Nodup := by
  unfold ports
  apply List.nodup_range.map
  intro i j hij
  have hij' : lo + (i : Int) = lo + (j : Int) := hij
  omega

theorem mem_slice {range : Option (Int × Int)} {p : Int} : p ∈ slice range ↔ inRange p range := by
  cases range with
  | none => simp [slice, inRange]
  | some r => simp [slice, inRange, mem_ports]

theorem slice_nodup (range : Option (Int × Int)) : (slice range).Nodup := by
  cases range with
  | none => exact List.nodup_nil
  | some r => exact ports_nodup _ _

theorem portScan_pick (used : List Int) (hi : Int) (n : ℕ) (p : Int) (h : p + n = hi) :
    portScan used hi n p = Repair.pick ((List.range n).map fun i : ℕ => p + (i : Int)) used := by
  induction n generalizing p with
  | zero => rfl
  | succ n ih =>
    have hlt : p < hi := by omega
    have hrest := ih (p + 1) (by omega)
    have hmap : (List.range (n + 1)).map (fun i : ℕ => p + (i : Int)) =
        p :: (List.range n).map fun i : ℕ => p + 1 + (i : Int) := by
      rw [List.range_succ_eq_map, List.map_cons, List.map_map]
      congr 1
      · simp
      · apply List.map_congr_left
        intro i _
        simp only [Function.comp_apply, Nat.succ_eq_add_one]
        omega
    rw [portScan, if_pos hlt, hmap, hrest]
    unfold Repair.pick
    rw [List.find?_cons]
    by_cases hp : p ∈ used
    · simp [hp]
    · simp [hp]

theorem portScan_ports (used : List Int) (lo hi : Int) :
    portScan used hi (hi - lo).toNat lo = Repair.pick (ports lo hi) used := by
  by_cases h : lo ≤ hi
  · exact portScan_pick used hi _ lo (by omega)
  · have hz : (hi - lo).toNat = 0 := by omega
    unfold ports
    rw [hz]
    rfl

end Slice

variable {r : Int × Int}

section Range
variable {base : Int}

-- The arithmetic of `nodeRange` stays inside int32 for the nodes that have an index.
def NoOverflow (base : Int) (nodes : List Node) : Prop :=
  -2147483648 ≤ base ∧ ∀ n ∈ nodes, 1 ≤ n.index →
    32 * (n.index - 1) < 2147483648 ∧ base + 32 * n.index < 2147483648

def InSlice (base : Int) (n : Node) (p : Int) : Prop :=
  base + 32 * (n.index - 1) ≤ p ∧ p < base + 32 * n.index

def HasSlice (base : Int) (n : Node) : Prop :=
  1 ≤ n.index ∧ 1 ≤ base + 32 * (n.index - 1) ∧ base + 32 * n.index ≤ 65536

variable {i : Int}

theorem nodeRange_wrapped (h : 1 ≤ i) : nodeRange base i =
    if int32 (base + 32 * (i - 1)) < 1 ∨ int32 (int32 (base + 32 * (i - 1)) + 32) > 65536 then none
    else some (int32 (base + 32 * (i - 1)), int32 (int32 (base + 32 * (i - 1)) + 32)) := by
  have hlo : int32 (base + int32 (32 * int32 (i - 1))) = int32 (base + 32 * (i - 1)) := by
    simp only [int32_val]
    omega
  unfold nodeRange ingressPortsPerNode
  rw [if_neg (by omega)]
  dsimp only
  rw [hlo]

theorem nodeRange_exact (hb : -2147483648 ≤ base) (hov : 1 ≤ i → base + 32 * i < 2147483648) :
    nodeRange base i = some r ↔
      (1 ≤ i ∧ 1 ≤ base + 32 * (i - 1) ∧ base + 32 * i ≤ 65536) ∧ r = (base + 32 * (i - 1), base + 32 * i) := by
  by_cases h1 : 1 ≤ i
  · have hfit := hov h1
    have hlo : int32 (base + 32 * (i - 1)) = base + 32 * (i - 1) := int32_self (by omega) (by omega)
    have hhi : int32 (base + 32 * (i - 1) + 32) = base + 32 * i := by
      rw [int32_self (by omega) (by omega)]
      omega
    rw [nodeRange_wrapped h1, hlo, hhi]
    split
    · simp only [reduceCtorEq, false_iff]
      omega
    · rename_i hport
      rw [Option.some.injEq, eq_comm]
      have hslice : 1 ≤ i ∧ 1 ≤ base + 32 * (i - 1) ∧ base + 32 * i ≤ 65536 := by omega
      exact ⟨fun he => ⟨hslice, he⟩, fun he => he.2⟩
  · unfold nodeRange
    rw [if_pos (by omega)]
    simp only [reduceCtorEq, false_iff]
    omega

theorem nodeRange_slice {nodes : List Node} (hov : NoOverflow base nodes) {n : Node} (hn : n ∈ nodes) :
    nodeRange base n.index = some r ↔ HasSlice base n ∧ r = (base + 32 * (n.index - 1), base + 32 * n.index) :=
  nodeRange_exact hov.1 fun h1 => (hov.2 n hn h1).2

theorem nodeRange_bounds (h : nodeRange base i = some r) : 1 ≤ r.1 ∧ r.2 ≤ 65536 := by
  unfold nodeRange at h
  dsimp only at h
  generalize int32 (base + int32 (ingressPortsPerNode * int32 (i - 1))) = x at h
  generalize int32 (x + ingressPortsPerNode) = y at h
  split at h
  · cases h
  · split at h
    · cases h
    · cases h
      omega

variable (index : Indexes)

theorem inRange_bounds {node : String} {p : Int} (h : inRange p (rangeOf base index node)) : 0 < p ∧ p ≤ 65535 := by
  obtain ⟨r, hr, hp⟩ := (Option.any_eq_true _ _).mp h
  have hbounds := nodeRange_bounds hr
  simp only [decide_eq_true_eq] at hp
  omega

end Range

section Scheme
variable (base : Int) (index : Indexes)

def ingressScheme : Scheme .ingressAllocation IngressAllocationSpec Int String where
  name sp := ingressAllocationName sp.service sp.inst
  addr := fun (a : IngressAllocation) => if a.port > 0 then some a.port else none
  ok sp := fun (a : IngressAllocation) => sp.node = a.node ∧ inRange a.port (rangeOf base index a.node)
  cls sp := sp.node
  room node := slice (rangeOf base index node)
  make := ingressAllocation
  addr_meta _ _ := rfl
  ok_meta _ _ _ := rfl
  ok_addr := by
    intro sp (a : IngressAllocation) h
    have hr := (of_decide_eq_true h).2
    exact ⟨a.port, if_pos (inRange_bounds index hr).1⟩
  make_name _ _ := rfl
  make_addr := by
    intro sp d hd
    exact if_pos (inRange_bounds index (mem_slice.mp hd)).1
  make_ok := by
    intro sp d hd
    exact decide_eq_true ⟨rfl, mem_slice.mp hd⟩

theorem ingress_scan (st : IngressState) (a : IngressAllocation) :
    ingressReconcileAllocation base index st a = if (ingressScheme base index).keeps st a then
        pure { st with want := st.want.erase a.metadata.name,
                       used := ((ingressScheme base index).addr a).toList ++ st.used }
      else release .ingressAllocation a.metadata.name a.metadata.resourceVersion
        { st with used := ((ingressScheme base index).addr a).toList ++ st.used } := by
  have hused : ((ingressScheme base index).addr a).toList ++ st.used =
      if a.port > 0 then a.port :: st.used else st.used := by
    show (if a.port > 0 then some a.port else none).toList ++ st.used = _
    split <;> rfl
  have hkeeps : (ingressScheme base index).keeps st a = ((st.want[a.metadata.name]?.any fun sp =>
      sp.node = a.node ∧ inRange a.port (rangeOf base index a.node)) &&
      ((if a.port > 0 then some a.port else none).all fun d => d ∉ st.used)) := rfl
  rw [hused, hkeeps]
  unfold ingressReconcileAllocation
  dsimp only
  cases hw : st.want[a.metadata.name]? with
  | none => simp [Table.erase_of_none hw]
  | some sp =>
    simp only [Table.insert_erase hw]
    by_cases hnode : sp.node = a.node
    · by_cases hr : inRange a.port (rangeOf base index a.node)
      · have hpos := (inRange_bounds index hr).1
        by_cases hu : a.port ∈ st.used
        · simp [hnode, hr, hpos, hu]
        · simp [hnode, hr, hpos, hu]
      · simp [hnode, hr]
    · simp [hnode]

theorem ingress_scanStep : (ingressScheme base index).ScanStep (ingressReconcileAllocation base index) :=
  scanStep_of (ingress_scan base index)

theorem ingress_allocateStep : (ingressScheme base index).AllocateStep (ingressAllocate base index) := by
  apply allocateStep_of
  · intro st sp d hp
    have hpick : Repair.pick (slice (rangeOf base index sp.node)) st.used = some d := hp
    unfold ingressAllocate
    cases hr : rangeOf base index sp.node with
    | none =>
      rw [hr] at hpick
      cases hpick
    | some r =>
      rw [hr] at hpick
      have hf : firstFreePort r.1 r.2 st.used = .ok d := by
        unfold firstFreePort
        rw [portScan_ports, show Repair.pick (ports r.1 r.2) st.used = some d from hpick]
      dsimp only
      rw [hf]
      rfl
  · intro st sp hp
    have hpick : Repair.pick (slice (rangeOf base index sp.node)) st.used = none := hp
    unfold ingressAllocate
    cases hr : rangeOf base index sp.node with
    | none => exact ⟨st, rfl, rfl⟩
    | some r =>
      rw [hr] at hpick
      have hf : ∃ e, firstFreePort r.1 r.2 st.used = .error e := by
        unfold firstFreePort
        rw [portScan_ports, show Repair.pick (ports r.1 r.2) st.used = none from hpick]
        exact ⟨_, rfl⟩
      obtain ⟨e, he⟩ := hf
      dsimp only
      rw [he]
      exact ⟨_, rfl, rfl⟩

end Scheme

section Wanted
variable {base : Int} {s : Store}

def ingressWants (base : Int) (s : Store) : Std.ExtTreeMap String IngressAllocationSpec :=
  ingressWanted base (indexesOf (s.listing .node)) (s.listing .service) (s.listing .inst)

theorem rangeOf_node {n : Node} (hn : Holds s .node n) :
    rangeOf base (indexesOf (s.listing .node)) n.metadata.name = nodeRange base n.index := by
  have hget : (indexesOf (s.listing .node))[n.metadata.name]? = some n.index := by
    unfold indexesOf mapOf
    apply Table.get_fill_mem
    · exact List.mem_map.mpr ⟨n, mem_listing.mpr hn, rfl⟩
    · intro i hi
      obtain ⟨n', hn', he⟩ := List.mem_map.mp hi
      obtain ⟨hname, rfl⟩ := Prod.mk.inj he
      rw [listing_name_inj (k := .node) hn' (mem_listing.mpr hn) hname]
  unfold rangeOf
  rw [Std.ExtTreeMap.getD_eq_getD_getElem?, hget]
  rfl

theorem rangeOf_some {m : String} (h : rangeOf base (indexesOf (s.listing .node)) m = some r) :
    ∃ n, Holds s .node n ∧ n.metadata.name = m ∧ nodeRange base n.index = some r := by
  by_cases hex : ∃ n, Holds s .node n ∧ n.metadata.name = m
  · obtain ⟨n, hn, rfl⟩ := hex
    rw [rangeOf_node hn] at h
    exact ⟨n, hn, rfl, h⟩
  · have hget : (indexesOf (s.listing .node))[m]? = none := by
      unfold indexesOf mapOf
      rw [Table.get_fill_absent]
      · rfl
      · intro i hi
        obtain ⟨n, hn, he⟩ := List.mem_map.mp hi
        exact hex ⟨n, mem_listing.mp hn, (Prod.mk.inj he).1⟩
    unfold rangeOf at h
    rw [Std.ExtTreeMap.getD_eq_getD_getElem?, hget] at h
    cases h

theorem wants_some {n : String} {sp : IngressAllocationSpec} (h : (ingressWants base s)[n]? = some sp) :
    ∃ svc inst, Holds s .service svc ∧ Holds s .inst inst ∧ selects svc inst ∧ inst.spec.node ≠ "" ∧
      n = ingressAllocationName svc.metadata.name inst.metadata.name ∧
      sp = ⟨svc.metadata.name, inst.metadata.name, inst.spec.node⟩ ∧
      ∃ r, rangeOf base (indexesOf (s.listing .node)) sp.node = some r := by
  unfold ingressWants ingressWanted mapOf at h
  rcases Table.get_fill_some h with hm | hm
  · obtain ⟨svc, hsvc, hm⟩ := List.mem_flatMap.mp hm
    obtain ⟨inst, hinst, he⟩ := List.mem_filterMap.mp hm
    split at he
    · cases he
    · rename_i hsel
      split at he
      · cases he
      · rename_i r hr
        simp only [Option.some.injEq, Prod.mk.injEq] at he
        obtain ⟨rfl, rfl⟩ := he
        simp only [Bool.not_eq_true', not_or, Bool.not_eq_false] at hsel
        exact ⟨svc, inst, mem_listing.mp hsvc, mem_listing.mp hinst, hsel.2, hsel.1, rfl, rfl, r, hr⟩
  · cases hm

theorem wants_name {n : String} {sp : IngressAllocationSpec} (h : (ingressWants base s)[n]? = some sp) :
    (ingressScheme base (indexesOf (s.listing .node))).name sp = n ∧ validName n := by
  obtain ⟨svc, inst, hsvc, hinst, -, -, rfl, rfl, -⟩ := wants_some h
  exact ⟨rfl, validName_pair (lookup_some hsvc).2.2.1 (lookup_some hinst).2.2.1⟩

/-- Each selected bound instance whose node has a slice is wanted under its name; a name
stands for one pair only, unless the service names have dots. -/
theorem wants_pair {svc : Service} {inst : Instance} (hsvc : Holds s .service svc) (hinst : Holds s .inst inst)
    (hsel : selects svc inst) (hnode : inst.spec.node ≠ "")
    (hr : rangeOf base (indexesOf (s.listing .node)) inst.spec.node = some r) :
    ∃ sp, (ingressWants base s)[ingressAllocationName svc.metadata.name inst.metadata.name]? = some sp ∧
      ((∀ svc', Holds s .service svc' → '.' ∉ svc'.metadata.name.toList) →
        sp = ⟨svc.metadata.name, inst.metadata.name, inst.spec.node⟩) := by
  have hsome : ∃ sp, (ingressWants base s)[ingressAllocationName svc.metadata.name inst.metadata.name]? = some sp := by
    unfold ingressWants ingressWanted mapOf
    apply Table.get_fill_isSome (v := ⟨svc.metadata.name, inst.metadata.name, inst.spec.node⟩)
    refine List.mem_flatMap.mpr ⟨svc, mem_listing.mpr hsvc, ?_⟩
    refine List.mem_filterMap.mpr ⟨inst, mem_listing.mpr hinst, ?_⟩
    simp [hnode, hsel, hr]
  obtain ⟨sp, hsp⟩ := hsome
  refine ⟨sp, hsp, ?_⟩
  intro hdots
  obtain ⟨svc', inst', hsvc', hinst', -, -, hname, rfl, -⟩ := wants_some hsp
  obtain ⟨hs, hi⟩ := pair_inj (hdots svc hsvc) (hdots svc' hsvc') hname
  have hsame : inst = inst' := listing_name_inj (mem_listing.mpr hinst) (mem_listing.mpr hinst') hi
  rw [hs, hsame]

theorem wants_of_tbl (base : Int) {s' : Store} (h : ∀ k, k ≠ .ingressAllocation → s'.tbl k = s.tbl k) :
    ingressWants base s' = ingressWants base s ∧ s'.listing .node = s.listing .node := by
  have hsvc : s'.listing .service = s.listing .service := listing_of_tbl (h .service (by decide))
  have hinst : s'.listing .inst = s.listing .inst := listing_of_tbl (h .inst (by decide))
  have hnode : s'.listing .node = s.listing .node := listing_of_tbl (h .node (by decide))
  unfold ingressWants
  rw [hsvc, hinst, hnode]
  exact ⟨rfl, rfl⟩

end Wanted

theorem solo_ingressReconcile (base : Int) (w : World) :
    Alone (fun _ w' => Outcome (ingressScheme base (indexesOf (w.store.listing .node)))
      (ingressWants base w.store) w.store w'.store) (ingressReconcile base) w := by
  unfold ingressReconcile
  apply solo_list
  apply solo_list
  apply solo_list
  apply solo_list
  exact solo_repairPass (ingress_scanStep base _) (ingress_allocateStep base _) _ (fun _ _ h => wants_name h) w

end Klite
