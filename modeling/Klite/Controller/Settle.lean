import Klite.Controller.AllocatorSpec

/-!
# Where the passes of an allocator lead

After one pass every record fits and no two share an address; a record that was right
before is still there. From such a store one more pass serves all there is room for, and
once all is served a pass writes nothing.
-/

namespace Klite
open Lib

section Outcome
variable {k : Kind} {S D C : Type} [DecidableEq D] {al : Scheme k S D C}
  {want : Std.ExtTreeMap String S} {s s' : Store}

theorem holds_inj {o o' : k.Obj} (h : Holds s k o) (h' : Holds s k o') (hn : recordName o = recordName o') : o = o' :=
  listing_name_inj (mem_listing.mpr h) (mem_listing.mpr h') hn

omit [DecidableEq D] in
theorem mem_seen {d : D} : d ∈ al.seen (s.listing k) ↔ ∃ o, Holds s k o ∧ al.addr o = some d := by
  unfold Scheme.seen
  rw [Repair.mem_met]
  simp only [List.not_mem_nil, false_or, mem_listing]

theorem outcome_cases (h : Outcome al want s s') {o : k.Obj} (ho : Holds s' k o) : o ∈ al.stays want (s.listing k) ∨
      ∃ e ∈ al.served want (s.listing k), ∃ sp m, e.1 = recordName o ∧ want[recordName o]? = some sp ∧
        e.2 ∈ al.room (al.cls sp) ∧ o = setMeta (al.make sp e.2) m := by
  by_cases hstay : recordName o ∈ (al.stays want (s.listing k)).map recordName
  · obtain ⟨o', ho', hn, -⟩ := stays_names hstay
    rw [holds_inj ho (h.kept o' ho') hn.symm]
    exact Or.inl ho'
  · by_cases hserved : recordName o ∈ (al.served want (s.listing k)).map Prod.fst
    · obtain ⟨e, he, hn⟩ := List.mem_map.mp hserved
      obtain ⟨sp, m, r, hsp, hroom, hl⟩ := h.new e he
      have hlook : s'.lookup k (recordName o) = some (o, (metaOf o).resourceVersion) := ho
      rw [hn] at hl hsp
      rw [hl] at hlook
      exact Or.inr ⟨e, he, sp, m, hn, hsp, hroom, (Prod.mk.inj (Option.some.inj hlook)).1.symm⟩
    · have hnone := h.gone _ hstay hserved
      have hlook : s'.lookup k (recordName o) = some (o, (metaOf o).resourceVersion) := ho
      rw [hnone] at hlook
      cases hlook

theorem stays_fits {o : k.Obj} (ho : o ∈ al.stays want (s.listing k)) :
    ∃ sp, want[recordName o]? = some sp ∧ al.ok sp o := by
  have hf := (Repair.mem_kept ho).1
  unfold Scheme.fits at hf
  exact (Option.any_eq_true _ _).mp hf

section Outcomes
variable (h : Outcome al want s s')
include h

theorem outcome_ok {o : k.Obj} (ho : Holds s' k o) : ∃ sp, want[recordName o]? = some sp ∧ al.ok sp o := by
  rcases outcome_cases h ho with hstay | ⟨e, -, sp, m, -, hsp, hroom, heq⟩
  · exact stays_fits hstay
  · refine ⟨sp, hsp, ?_⟩
    rw [heq, al.ok_meta]
    exact al.make_ok sp e.2 hroom

theorem outcome_new {o : k.Obj} (ho : Holds s' k o) (hnew : ¬ Holds s k o) :
    ∃ sp d, want[recordName o]? = some sp ∧ d ∈ al.room (al.cls sp) ∧ al.addr o = some d ∧
      d ∉ al.seen (s.listing k) := by
  rcases outcome_cases h ho with hstay | ⟨e, he, sp, m, -, hsp, hroom, heq⟩
  · exact absurd (mem_listing.mp ((Repair.kept_sublist _ _).subset hstay)) hnew
  · refine ⟨sp, e.2, hsp, hroom, ?_, (Repair.mem_assign he).1⟩
    rw [heq, al.addr_meta]
    exact al.make_addr sp e.2 hroom

theorem served_addr {e : String × D} (he : e ∈ al.served want (s.listing k)) :
    ∃ o, Holds s' k o ∧ recordName o = e.1 ∧ al.addr o = some e.2 := by
  obtain ⟨sp, m, r, -, hroom, hl⟩ := h.new e he
  refine ⟨_, holds_of_lookup hl, (lookup_some hl).1, ?_⟩
  rw [al.addr_meta]
  exact al.make_addr sp e.2 hroom

theorem outcome_distinct {o o' : k.Obj} (ho : Holds s' k o) (ho' : Holds s' k o') {d : D} (hd : al.addr o = some d)
    (hd' : al.addr o' = some d) : o = o' := by
  -- An address that was handed out was not held by any listed record.
  have hcross : ∀ {a b : k.Obj}, a ∈ al.stays want (s.listing k) → al.addr a = some d →
      ∀ e ∈ al.served want (s.listing k), ∀ sp m, e.2 ∈ al.room (al.cls sp) → b = setMeta (al.make sp e.2) m →
        al.addr b ≠ some d := by
    intro a b ha had e he sp m hroom hb hbd
    rw [hb, al.addr_meta, al.make_addr sp e.2 hroom] at hbd
    apply (Repair.mem_assign he).1
    rw [Option.some.inj hbd]
    exact mem_seen.mpr ⟨a, mem_listing.mp ((Repair.kept_sublist _ _).subset ha), had⟩
  rcases outcome_cases h ho with hstay | ⟨e, he, sp, m, hen, hsp, hroom, heq⟩
  · rcases outcome_cases h ho' with hstay' | ⟨e', he', sp', m', -, -, hroom', heq'⟩
    · exact Repair.kept_inj hstay hstay' hd hd'
    · exact absurd hd' (hcross hstay hd e' he' sp' m' hroom' heq')
  · rcases outcome_cases h ho' with hstay' | ⟨e', he', sp', m', hen', -, hroom', heq'⟩
    · exact absurd hd (hcross hstay' hd' e he sp m hroom heq)
    · rw [heq, al.addr_meta, al.make_addr sp e.2 hroom] at hd
      rw [heq', al.addr_meta, al.make_addr sp' e'.2 hroom'] at hd'
      have hsnd : e.2 = e'.2 := (Option.some.inj hd).trans (Option.some.inj hd').symm
      have hee : e = e' := List.inj_on_of_nodup_map (Repair.assign_distinct _ _) he he' hsnd
      apply holds_inj ho ho'
      rw [← hen, ← hen', hee]

theorem outcome_untouched {o : k.Obj} (ho : Holds s k o) {sp : S} (hsp : want[recordName o]? = some sp)
    (hok : al.ok sp o) (hfirst : ∀ o', Holds s k o' → recordName o' < recordName o → al.addr o' ≠ al.addr o) :
    Holds s' k o := by
  apply h.kept
  obtain ⟨l₁, l₂, hl⟩ := List.append_of_mem (mem_listing.mpr ho)
  unfold Scheme.stays
  rw [hl]
  apply Repair.kept_first
  · unfold Scheme.fits
    rw [hsp]
    exact hok
  · intro d hd
    refine ⟨List.not_mem_nil, ?_⟩
    intro o' ho' hd'
    have hsorted := listing_sorted s k
    rw [hl] at hsorted
    have hlt := (List.pairwise_append.mp hsorted).2.2 o' ho' o List.mem_cons_self
    have hin : o' ∈ s.listing k := by
      rw [hl]
      exact List.mem_append_left _ ho'
    exact hfirst o' (mem_listing.mp hin) hlt (hd'.trans hd.symm)

theorem outcome_missing {n : String} {sp : S} (hsp : want[n]? = some sp) (hnone : ∀ o, Holds s' k o → recordName o ≠ n)
    {d : D} (hd : d ∈ al.room (al.cls sp)) :
    (∃ o, Holds s k o ∧ al.addr o = some d) ∨ ∃ o, Holds s' k o ∧ ¬ Holds s k o ∧ al.addr o = some d := by
  have hleft : (n, sp) ∈ (al.left want (s.listing k)).toList := by
    apply mem_left.mpr
    refine ⟨hsp, ?_⟩
    intro hin
    obtain ⟨o, ho, hn, -⟩ := stays_names hin
    exact hnone o (h.kept o ho) hn
  have hno : ∀ d, (n, d) ∉ al.served want (s.listing k) := by
    intro d' hin
    obtain ⟨o, ho, hn, -⟩ := served_addr h hin
    exact hnone o ho hn
  rcases Repair.assign_exhausted hleft hno hd with hseen | ⟨e, he, rfl⟩
  · exact Or.inl (mem_seen.mp hseen)
  · obtain ⟨o, ho, -, hd'⟩ := served_addr h he
    refine Or.inr ⟨o, ho, ?_, hd'⟩
    intro hold
    exact (Repair.mem_assign he).1 (mem_seen.mpr ⟨o, hold, hd'⟩)

end Outcomes

end Outcome

section Settled
variable {k : Kind} {S D C : Type} [DecidableEq D] (al : Scheme k S D C) (want : Std.ExtTreeMap String S)

structure Settled (s : Store) : Prop where
  fits : ∀ o, Holds s k o → ∃ sp, want[recordName o]? = some sp ∧ al.ok sp o
  distinct : ∀ o o', Holds s k o → Holds s k o' → ∀ d, al.addr o = some d → al.addr o' = some d → o = o'

def Served (k : Kind) (s : Store) : Prop := ∀ (n : String) sp, want[n]? = some sp → ∃ o, Holds s k o ∧ recordName o = n

variable {al want} {s s' : Store}

theorem outcome_settled (h : Outcome al want s s') : Settled al want s' :=
  ⟨fun _ ho => outcome_ok h ho, fun _ _ ho ho' _ hd hd' => outcome_distinct h ho ho' hd hd'⟩

theorem settled_stays (h : Settled al want s) : al.stays want (s.listing k) = s.listing k := by
  apply Repair.kept_all
  · intro o ho
    obtain ⟨sp, hsp, hok⟩ := h.fits o (mem_listing.mp ho)
    unfold Scheme.fits
    rw [hsp]
    exact hok
  · exact fun _ _ _ _ => List.not_mem_nil
  · have hne : (s.listing k).Pairwise fun o o' => o ≠ o' := (listing_names s k).of_map _
    apply hne.imp_of_mem
    intro o o' ho ho' hneq d hd hd'
    exact hneq (h.distinct o o' (mem_listing.mp ho) (mem_listing.mp ho') d hd hd')

theorem settled_quiet (h : Settled al want s) (hall : Served want k s) (ho : Outcome al want s s') : s' = s := by
  apply ho.quiet (settled_stays h)
  have hempty : (al.left want (s.listing k)).toList = [] := by
    apply List.eq_nil_iff_forall_not_mem.mpr
    intro e he
    obtain ⟨hsp, hout⟩ := mem_left.mp he
    rw [settled_stays h] at hout
    obtain ⟨o, hold, hn⟩ := hall e.1 e.2 hsp
    exact hout (List.mem_map.mpr ⟨o, mem_listing.mpr hold, hn⟩)
  unfold Scheme.served
  rw [hempty]
  rfl

theorem served_of_left {n : String} {sp : S} (ho : Outcome al want s s') (hsp : want[n]? = some sp)
    (h : (n, sp) ∈ (al.left want (s.listing k)).toList → ∃ d, (n, d) ∈ al.served want (s.listing k)) :
    ∃ o, Holds s' k o ∧ recordName o = n := by
  by_cases hstay : n ∈ (al.stays want (s.listing k)).map recordName
  · obtain ⟨o, hin, hn, -⟩ := stays_names hstay
    exact ⟨o, ho.kept o hin, hn⟩
  · obtain ⟨d, hd⟩ := h (mem_left.mpr ⟨hsp, hstay⟩)
    obtain ⟨o, hold, hn, -⟩ := served_addr ho hd
    exact ⟨o, hold, hn⟩

section Room
variable [DecidableEq C] {c : C} (hnodup : (al.room c).Nodup)
  (hdisj : ∀ c', c' ≠ c → ∀ d ∈ al.room c', d ∉ al.room c)
include hnodup hdisj

theorem outcome_served (ho : Outcome al want s s')
    (hfit : want.toList.countP (fun e => al.cls e.2 = c) + (al.room c).countP (fun d => d ∈ al.seen (s.listing k)) ≤
      (al.room c).length) {n : String} {sp : S} (hsp : want[n]? = some sp) (hc : al.cls sp = c) :
    ∃ o, Holds s' k o ∧ recordName o = n := by
  apply served_of_left ho hsp
  intro hleft
  apply Repair.assign_all hnodup hdisj _ _ _ hleft hc
  have hle : (al.left want (s.listing k)).toList.countP (fun e => al.cls e.2 = c) ≤
      want.toList.countP fun e => al.cls e.2 = c := by
    unfold Scheme.left
    rw [Std.ExtTreeMap.toList_filter]
    exact List.Sublist.countP_le List.filter_sublist
  omega

theorem settled_served (hs : Settled al want s) (ho : Outcome al want s s')
    (hcls : ∀ sp o d, al.ok sp o → al.addr o = some d → d ∈ al.room c → al.cls sp = c)
    (hfit : want.toList.countP (fun e => al.cls e.2 = c) ≤ (al.room c).length) {n : String} {sp : S}
    (hsp : want[n]? = some sp) (hc : al.cls sp = c) : ∃ o, Holds s' k o ∧ recordName o = n := by
  apply served_of_left ho hsp
  intro hleft
  apply Repair.assign_all hnodup hdisj _ _ _ hleft hc
  -- The address a wanted name holds already.
  let held : String → Option D := fun n => (s.lookup k n).bind fun x => al.addr x.1
  have hheld : (al.room c).countP (fun d => d ∈ al.seen (s.listing k)) ≤
      want.toList.countP fun e => decide (al.cls e.2 = c) && (held e.1).isSome := by
    apply Repair.held_le hnodup
    intro d hd hin
    obtain ⟨o, hold, had⟩ := mem_seen.mp hin
    obtain ⟨sp', hsp', hok⟩ := hs.fits o hold
    refine ⟨(recordName o, sp'), Table.mem_toList.mpr hsp', ?_, ?_⟩
    · exact decide_eq_true (hcls sp' o d hok had hd)
    · show (s.lookup k (recordName o)).bind _ = _
      rw [show s.lookup k (recordName o) = some (o, (metaOf o).resourceVersion) from hold]
      exact had
  have hrest : (al.left want (s.listing k)).toList.countP (fun e => al.cls e.2 = c) =
      want.toList.countP fun e => decide (al.cls e.2 = c) && !(held e.1).isSome := by
    unfold Scheme.left
    rw [Std.ExtTreeMap.toList_filter, List.countP_filter, settled_stays hs]
    apply List.countP_congr
    intro e _
    have hiff : e.1 ∉ (s.listing k).map recordName ↔ (held e.1).isSome = false := by
      constructor
      · intro hout
        show ((s.lookup k e.1).bind _).isSome = false
        rw [lookup_unlisted hout]
        rfl
      · intro hnone hin
        obtain ⟨o, hmem, hn⟩ := List.mem_map.mp hin
        have hold := mem_listing.mp hmem
        obtain ⟨sp', -, hok⟩ := hs.fits o hold
        obtain ⟨d, had⟩ := al.ok_addr sp' o hok
        have hsome : held e.1 = some d := by
          rw [← hn]
          show (s.lookup k (recordName o)).bind _ = _
          rw [show s.lookup k (recordName o) = some (o, (metaOf o).resourceVersion) from hold]
          exact had
        rw [hsome] at hnone
        cases hnone
    simp only [Bool.and_eq_true, decide_eq_true_eq, Bool.not_eq_true', hiff]
  have hsplit := Repair.countP_split want.toList (fun e => decide (al.cls e.2 = c)) fun e => (held e.1).isSome
  have hseen : al.seen (s.listing k) = Repair.met al.addr (s.listing k) [] := rfl
  omega

end Room

end Settled

end Klite
