import Klite.Controller.Allocator
import Klite.Lib.Repair
import Klite.Store.Rules

/-!
# An undisturbed pass of an allocator

What a pass leaves when nothing else writes and the store answers. A scheme says which
address a record holds, when a record may stay for what its name is wanted as, which room
an allocation is served from and which record a new one is.
-/

namespace Klite
open Lib

section Names
variable {a b a' b' : String}

theorem validName_pair (ha : validName a) (hb : validName b) : validName (a ++ "." ++ b) := by
  unfold validName at ha hb ⊢
  simp only [Bool.and_eq_true, Bool.not_eq_true', decide_eq_true_eq] at ha hb ⊢
  refine ⟨?_, ?_⟩
  · intro he
    have hl := congrArg String.toList he
    simp at hl
  · have hall : ∀ c ∈ (a ++ "." ++ b).toList, c ≠ '/' := by
      intro c hc he
      subst he
      simp only [String.toList_append, List.mem_append] at hc
      rcases hc with (hc | hc) | hc
      · simpa [hc] using ha.2
      · simp at hc
      · simpa [hc] using hb.2
    simpa using fun h => hall '/' h rfl

theorem pair_split {l m l' m' : List Char} (hl : '.' ∉ l) (hl' : '.' ∉ l')
    (h : l ++ '.' :: m = l' ++ '.' :: m') : l = l' ∧ m = m' := by
  induction l generalizing l' with
  | nil =>
    cases l' with
    | nil => exact ⟨rfl, (List.cons.inj h).2⟩
    | cons c l' => exact absurd (by rw [(List.cons.inj h).1]; exact List.mem_cons_self) hl'
  | cons c l ih =>
    cases l' with
    | nil => exact absurd (by rw [(List.cons.inj h).1]; exact List.mem_cons_self) hl
    | cons c' l' =>
      obtain ⟨hc, hrest⟩ := List.cons.inj h
      obtain ⟨hlt, hm⟩ := ih (fun hin => hl (List.mem_cons_of_mem _ hin))
        (fun hin => hl' (List.mem_cons_of_mem _ hin)) hrest
      exact ⟨by rw [hc, hlt], hm⟩

theorem pair_inj (ha : '.' ∉ a.toList) (ha' : '.' ∉ a'.toList) (h : a ++ "." ++ b = a' ++ "." ++ b') :
    a = a' ∧ b = b' := by
  have hl := congrArg String.toList h
  simp only [String.toList_append, List.append_assoc] at hl
  obtain ⟨h₁, h₂⟩ := pair_split ha ha' hl
  exact ⟨String.toList_inj.mp h₁, String.toList_inj.mp h₂⟩

end Names

def recordName {k : Kind} (o : k.Obj) : String := (metaOf o).name

structure Scheme (k : Kind) (S D C : Type) where
  name : S → String
  addr : k.Obj → Option D
  ok : S → k.Obj → Bool
  cls : S → C
  room : C → List D
  make : S → D → k.Obj
  -- The record's metadata does not matter to what it holds.
  addr_meta : ∀ o m, addr (setMeta o m) = addr o
  ok_meta : ∀ s o m, ok s (setMeta o m) = ok s o
  ok_addr : ∀ s o, ok s o → ∃ d, addr o = some d
  make_name : ∀ s d, (metaOf (make s d)).name = name s
  make_addr : ∀ s d, d ∈ room (cls s) → addr (make s d) = some d
  make_ok : ∀ s d, d ∈ room (cls s) → ok s (make s d)

namespace Scheme
variable {k : Kind} {S D C : Type} [DecidableEq D] (al : Scheme k S D C)

def fits (want : Std.ExtTreeMap String S) (o : k.Obj) : Bool := want[recordName o]?.any fun s => al.ok s o

def keeps (st : AllocState S D) (o : k.Obj) : Bool := al.fits st.want o && (al.addr o).all fun d => d ∉ st.used

def stays (want : Std.ExtTreeMap String S) (l : List k.Obj) : List k.Obj := Repair.kept al.addr (al.fits want) l []

def seen (l : List k.Obj) : List D := Repair.met al.addr l []

def left (want : Std.ExtTreeMap String S) (l : List k.Obj) : Std.ExtTreeMap String S :=
  want.filter fun n _ => n ∉ (al.stays want l).map recordName

def served (want : Std.ExtTreeMap String S) (l : List k.Obj) : List (String × D) :=
  Repair.assign (fun s => al.room (al.cls s)) (al.left want l).toList (al.seen l)

def ScanStep (scan : AllocState S D → k.Obj → Code (AllocState S D)) : Prop :=
  ∀ st o w, Holds w.store k o → Alone (fun st' w' =>
    st'.want = (if al.keeps st o then st.want.erase (recordName o) else st.want) ∧
    st'.used = (al.addr o).toList ++ st.used ∧
    w'.store = if al.keeps st o then w.store else w.store.remove k (recordName o)) (scan st o) w

def AllocateStep (allocate : AllocState S D → S → Code (AllocState S D)) : Prop :=
  ∀ st s w, validName (al.name s) → w.store.lookup k (al.name s) = none →
    Alone (fun st' w' =>
      match Repair.pick (al.room (al.cls s)) st.used with
      | some d => st'.used = d :: st.used ∧ ∃ t hv, w'.store = w.store.created t k (al.make s d) hv
      | none => st'.used = st.used ∧ w'.store = w.store) (allocate st s) w

end Scheme

section Writes
variable {S D : Type} {k : Kind} {w : World}

theorem solo_release {o : k.Obj} (ho : Holds w.store k o) (st : AllocState S D) :
    Alone (fun st' w' => st' = st ∧ w'.store = w.store.remove k (metaOf o).name)
      (release k (metaOf o).name (metaOf o).resourceVersion st) w := by
  apply solo_call
  intro c hc r w' he
  obtain ⟨rfl, rfl⟩ := Prod.mk.inj (he.symm.trans (exec_delete_held hc ho))
  exact ⟨rfl, rfl⟩

theorem solo_createAllocation {o : k.Obj} (hv : validName (metaOf o).name)
    (habs : w.store.lookup k (metaOf o).name = none) (st : AllocState S D) :
    Alone (fun st' w' => st' = st ∧ w'.store = w.store.created w.unix k o hv) (createAllocation k o st) w := by
  apply solo_call
  intro c hc r w' he
  obtain ⟨rfl, rfl⟩ := Prod.mk.inj (he.symm.trans (exec_create_absent hc hv habs))
  exact ⟨rfl, rfl⟩

end Writes

section Steps
variable {k : Kind} {S D C : Type} [DecidableEq D] {al : Scheme k S D C}

theorem scanStep_of {scan : AllocState S D → k.Obj → Code (AllocState S D)}
    (h : ∀ st o, scan st o = if al.keeps st o then
        pure { st with want := st.want.erase (recordName o), used := (al.addr o).toList ++ st.used }
      else release k (recordName o) (metaOf o).resourceVersion { st with used := (al.addr o).toList ++ st.used }) :
    al.ScanStep scan := by
  intro st o w ho
  rw [h]
  cases al.keeps st o with
  | true => exact ⟨rfl, rfl, rfl⟩
  | false =>
    apply solo_mono _ (solo_release ho _)
    rintro _ w' ⟨rfl, hs⟩
    exact ⟨rfl, rfl, hs⟩

theorem allocateStep_of {allocate : AllocState S D → S → Code (AllocState S D)}
    (hsome : ∀ st s d, Repair.pick (al.room (al.cls s)) st.used = some d →
      allocate st s = createAllocation k (al.make s d) { st with used := d :: st.used })
    (hnone : ∀ st s, Repair.pick (al.room (al.cls s)) st.used = none →
      ∃ st', allocate st s = pure st' ∧ st'.used = st.used) : al.AllocateStep allocate := by
  intro st s w hvalid habs
  cases hp : Repair.pick (al.room (al.cls s)) st.used with
  | none =>
    obtain ⟨st', heq, hu⟩ := hnone st s hp
    rw [heq]
    exact ⟨hu, rfl⟩
  | some d =>
    rw [hsome st s d hp]
    rw [← al.make_name s d] at hvalid habs
    apply solo_mono _ (solo_createAllocation hvalid habs _)
    rintro _ w' ⟨rfl, hs⟩
    exact ⟨rfl, w.unix, hvalid, hs⟩

end Steps

section Walk
variable {k : Kind} {S D C : Type} [DecidableEq D] {al : Scheme k S D C}

structure Swept (l keep : List k.Obj) (s s' : Store) : Prop where
  gone : ∀ n, n ∈ l.map recordName → n ∉ keep.map recordName → s'.lookup k n = none
  rest : ∀ n, (n ∈ l.map recordName → n ∈ keep.map recordName) → s'.lookup k n = s.lookup k n
  others : ∀ k', k' ≠ k → s'.tbl k' = s.tbl k'
  quiet : keep = l → s' = s

theorem lookup_remove_other {s : Store} {n m : String} (h : m ≠ n) : (s.remove k m).lookup k n = s.lookup k n := by
  rw [lookup_remove, if_neg h]

theorem tbl_remove_other {s : Store} {m : String} {k' : Kind} (h : k' ≠ k) : (s.remove k m).tbl k' = s.tbl k' := by
  unfold Store.remove
  exact Function.update_of_ne h _ _

theorem tbl_created_other {s : Store} {t : Int} {o : k.Obj} {hv : validName (metaOf o).name} {k' : Kind}
    (h : k' ≠ k) : (s.created t k o hv).tbl k' = s.tbl k' := by
  unfold Store.created Store.write
  exact Function.update_of_ne h _ _

theorem lookup_unlisted {s : Store} {n : String} (h : n ∉ (s.listing k).map recordName) : s.lookup k n = none := by
  cases hl : s.lookup k n with
  | none => rfl
  | some e =>
    have hin := List.mem_map_of_mem (f := recordName) (mem_listing.mpr (holds_of_lookup (o := e.1) (r := e.2) hl))
    rw [show recordName e.1 = n from (lookup_some (o := e.1) (r := e.2) hl).1] at hin
    exact absurd hin h

section Swept
variable {o : k.Obj} {l keep : List k.Obj} {s s' : Store}

theorem swept_keep (hn : recordName o ∉ l.map recordName) (h : Swept l keep s s') :
    Swept (o :: l) (o :: keep) s s' := by
  refine ⟨?_, ?_, h.others, ?_⟩
  · intro n hin hout
    simp only [List.map_cons, List.mem_cons, not_or] at hin hout
    exact h.gone n (hin.resolve_left hout.1) hout.2
  · intro n hkept
    apply h.rest
    intro hin
    simp only [List.map_cons, List.mem_cons] at hkept
    rcases hkept (Or.inr hin) with rfl | hmem
    · exact absurd hin hn
    · exact hmem
  · intro he
    exact h.quiet (List.cons.inj he).2

theorem swept_drop (hn : recordName o ∉ l.map recordName) (hk : recordName o ∉ keep.map recordName)
    (h : Swept l keep (s.remove k (recordName o)) s') : Swept (o :: l) keep s s' := by
  refine ⟨?_, ?_, ?_, ?_⟩
  · intro n hin hout
    simp only [List.map_cons, List.mem_cons] at hin
    rcases hin with rfl | hin
    · rw [h.rest _ fun hl => absurd hl hn, lookup_remove, if_pos rfl]
    · exact h.gone n hin hout
  · intro n hkept
    have hne : recordName o ≠ n := by
      intro he
      exact hk (he ▸ hkept (by rw [← he]; simp))
    rw [h.rest n fun hin => hkept (by simp [hin]), lookup_remove_other hne]
  · intro k' hk'
    rw [h.others k' hk', tbl_remove_other hk']
  · intro he
    rw [he] at hk
    simp at hk

end Swept

theorem solo_scan {scan : AllocState S D → k.Obj → Code (AllocState S D)} (hscan : al.ScanStep scan)
    (want : Std.ExtTreeMap String S) (l : List k.Obj) (st : AllocState S D) (w : World)
    (hnames : (l.map recordName).Nodup) (hold : ∀ o ∈ l, Holds w.store k o)
    (hwant : ∀ o ∈ l, st.want[recordName o]? = want[recordName o]?) : Alone (fun st' w' =>
      (∀ n, st'.want[n]? = if n ∈ (Repair.kept al.addr (al.fits want) l st.used).map recordName then none
        else st.want[n]?) ∧ st'.used = Repair.met al.addr l st.used ∧
      Swept l (Repair.kept al.addr (al.fits want) l st.used) w.store w'.store) (l.foldlM scan st) w := by
  induction l generalizing st w with
  | nil =>
    refine ⟨fun n => by simp [Repair.kept], rfl, ?_⟩
    exact ⟨fun n hn => by simp at hn, fun _ _ => rfl, fun _ _ => rfl, fun _ => rfl⟩
  | cons o l ih =>
    rw [List.map_cons, List.nodup_cons] at hnames
    rw [List.foldlM_cons]
    have hne : ∀ o' ∈ l, recordName o ≠ recordName o' := by
      intro o' ho' he
      exact hnames.1 (he ▸ List.mem_map_of_mem ho')
    have hfits : al.keeps st o = (al.fits want o && (al.addr o).all fun d => d ∉ st.used) := by
      unfold Scheme.keeps Scheme.fits
      rw [hwant o List.mem_cons_self]
    apply solo_bind (hscan st o w (hold o List.mem_cons_self))
    rintro st₁ w₁ ⟨hw₁, hu₁, hs₁⟩
    have hold₁ : ∀ o' ∈ l, Holds w₁.store k o' := by
      intro o' ho'
      have hh := hold o' (List.mem_cons_of_mem _ ho')
      unfold Holds at hh ⊢
      rw [hs₁]
      split
      · exact hh
      · rw [lookup_remove_other (show recordName o ≠ (metaOf o').name from hne o' ho')]
        exact hh
    have hwant₁ : ∀ o' ∈ l, st₁.want[recordName o']? = want[recordName o']? := by
      intro o' ho'
      have hh := hwant o' (List.mem_cons_of_mem _ ho')
      rw [hw₁]
      split
      · rw [Table.get_erase, if_neg (hne o' ho')]
        exact hh
      · exact hh
    apply solo_mono _ (ih st₁ w₁ hnames.2 hold₁ hwant₁)
    rintro st₂ w₂ ⟨hw₂, hu₂, hsw⟩
    rw [hu₁] at hw₂ hu₂ hsw
    rw [Repair.kept, ← hfits]
    generalize hK : Repair.kept al.addr (al.fits want) l ((al.addr o).toList ++ st.used) = K at hw₂ hsw ⊢
    have hnotin : recordName o ∉ K.map recordName := by
      intro hin
      rw [← hK] at hin
      exact hnames.1 (((Repair.kept_sublist _ _).map _).subset hin)
    refine ⟨?_, hu₂, ?_⟩
    · intro n
      rw [hw₂ n, hw₁]
      cases hkeep : al.keeps st o with
      | true =>
        by_cases hn : recordName o = n
        · subst hn
          simp [hnotin]
        · have hne' : ¬ n = recordName o := fun h => hn h.symm
          simp [hne', hn, Table.get_erase]
      | false => simp
    · rw [hs₁] at hsw
      cases hkeep : al.keeps st o with
      | true =>
        rw [hkeep] at hsw
        exact swept_keep hnames.1 hsw
      | false =>
        rw [hkeep] at hsw
        exact swept_drop hnames.1 hnotin hsw

structure MintedFrom (al : Scheme k S D C) (rest : List (String × S)) (pairs : List (String × D)) (s s' : Store) : Prop where
  new : ∀ e ∈ pairs, ∃ sp m r, (e.1, sp) ∈ rest ∧ e.2 ∈ al.room (al.cls sp) ∧
    s'.lookup k e.1 = some (setMeta (al.make sp e.2) m, r)
  rest : ∀ n, n ∉ pairs.map Prod.fst → s'.lookup k n = s.lookup k n
  others : ∀ k', k' ≠ k → s'.tbl k' = s.tbl k'
  quiet : pairs = [] → s' = s

omit [DecidableEq D] in
theorem mintedFrom_cons {e : String × S} {rest : List (String × S)} {pairs : List (String × D)} {d : D} {s s' : Store}
    {t : Int} {hv : validName (metaOf (al.make e.2 d)).name} (hname : al.name e.2 = e.1)
    (hroom : d ∈ al.room (al.cls e.2)) (hout : e.1 ∉ pairs.map Prod.fst)
    (h : MintedFrom al rest pairs (s.created t k (al.make e.2 d) hv) s') :
    MintedFrom al (e :: rest) ((e.1, d) :: pairs) s s' := by
  have hmake : (metaOf (al.make e.2 d)).name = e.1 := (al.make_name e.2 d).trans hname
  refine ⟨?_, ?_, ?_, nofun⟩
  · intro f hf
    rcases List.mem_cons.mp hf with rfl | hf
    · have hl : s'.lookup k e.1 = some (stamp (minted s t (al.make e.2 d)) (s.rev + 1), s.rev + 1) := by
        rw [h.rest _ hout, lookup_created, if_pos hmake]
      unfold minted stamp at hl
      rw [setMeta_setMeta] at hl
      exact ⟨e.2, _, s.rev + 1, List.mem_cons_self, hroom, hl⟩
    · obtain ⟨sp, m, r, hin, hr, hl⟩ := h.new f hf
      exact ⟨sp, m, r, List.mem_cons_of_mem _ hin, hr, hl⟩
  · intro n hn
    simp only [List.map_cons, List.mem_cons, not_or] at hn
    rw [h.rest n hn.2, lookup_created, if_neg (by rw [hmake]; exact fun he => hn.1 he.symm)]
  · intro k' hk'
    rw [h.others k' hk', tbl_created_other hk']

theorem solo_assign {allocate : AllocState S D → S → Code (AllocState S D)} (halloc : al.AllocateStep allocate)
    (rest : List (String × S)) (st : AllocState S D) (w : World) (hnames : (rest.map Prod.fst).Nodup)
    (hrest : ∀ e ∈ rest, al.name e.2 = e.1 ∧ validName e.1) (habs : ∀ e ∈ rest, w.store.lookup k e.1 = none) :
    Alone (fun _ w' => MintedFrom al rest (Repair.assign (fun s => al.room (al.cls s)) rest st.used) w.store w'.store)
      (rest.foldlM (fun st e => allocate st e.2) st) w := by
  induction rest generalizing st w with
  | nil => exact ⟨fun e he => absurd he List.not_mem_nil, fun _ _ => rfl, fun _ _ => rfl, fun _ => rfl⟩
  | cons e rest ih =>
    rw [List.map_cons, List.nodup_cons] at hnames
    rw [List.foldlM_cons]
    obtain ⟨hname, hvalid⟩ := hrest e List.mem_cons_self
    have hrest' : ∀ f ∈ rest, al.name f.2 = f.1 ∧ validName f.1 := fun f hf => hrest f (List.mem_cons_of_mem _ hf)
    have hstep := halloc st e.2 w (by rw [hname]; exact hvalid) (by rw [hname]; exact habs e List.mem_cons_self)
    apply solo_bind hstep
    intro st₁ w₁ hpost
    rw [Repair.assign]
    cases hp : Repair.pick (al.room (al.cls e.2)) st.used with
    | none =>
      rw [hp] at hpost
      obtain ⟨hu, hs⟩ := hpost
      have hgo := ih st₁ w₁ hnames.2 hrest' (by rw [hs]; exact fun f hf => habs f (List.mem_cons_of_mem _ hf))
      apply solo_mono _ hgo
      intro _ w₂ hm
      rw [hu, hs] at hm
      refine ⟨?_, hm.rest, hm.others, hm.quiet⟩
      intro f hf
      obtain ⟨sp, m, r, hin, hr, hl⟩ := hm.new f hf
      exact ⟨sp, m, r, List.mem_cons_of_mem _ hin, hr, hl⟩
    | some d =>
      rw [hp] at hpost
      obtain ⟨hu, t, hv, hs⟩ := hpost
      have habs₁ : ∀ f ∈ rest, w₁.store.lookup k f.1 = none := by
        intro f hf
        have hne : e.1 ≠ f.1 := fun he => hnames.1 (he ▸ List.mem_map_of_mem hf)
        rw [hs, lookup_created, if_neg (by rw [al.make_name, hname]; exact hne)]
        exact habs f (List.mem_cons_of_mem _ hf)
      apply solo_mono _ (ih st₁ w₁ hnames.2 hrest' habs₁)
      intro _ w₂ hm
      rw [hu, hs] at hm
      apply mintedFrom_cons hname (Repair.pick_some hp).1 _ hm
      intro hin
      exact hnames.1 ((Repair.assign_names rest _).subset hin)

/- What an undisturbed pass leaves: the records that stayed, the new ones, and no other. -/
structure Outcome (al : Scheme k S D C) (want : Std.ExtTreeMap String S) (s s' : Store) : Prop where
  kept : ∀ o ∈ al.stays want (s.listing k), Holds s' k o
  new : ∀ e ∈ al.served want (s.listing k), ∃ sp m r, want[e.1]? = some sp ∧ e.2 ∈ al.room (al.cls sp) ∧
    s'.lookup k e.1 = some (setMeta (al.make sp e.2) m, r)
  gone : ∀ n, n ∉ (al.stays want (s.listing k)).map recordName →
    n ∉ (al.served want (s.listing k)).map Prod.fst → s'.lookup k n = none
  others : ∀ k', k' ≠ k → s'.tbl k' = s.tbl k'
  quiet : al.stays want (s.listing k) = s.listing k → al.served want (s.listing k) = [] → s' = s

theorem get_left (want : Std.ExtTreeMap String S) (l : List k.Obj) (n : String) :
    (al.left want l)[n]? = if n ∈ (al.stays want l).map recordName then none else want[n]? := by
  unfold Scheme.left
  rw [Table.get_filter]
  by_cases hn : n ∈ (al.stays want l).map recordName
  · rw [if_pos hn]
    cases want[n]? <;> simp [Option.filter, hn]
  · rw [if_neg hn]
    cases want[n]? <;> simp [Option.filter, hn]

theorem mem_left {want : Std.ExtTreeMap String S} {l : List k.Obj} {e : String × S} :
    e ∈ (al.left want l).toList ↔ want[e.1]? = some e.2 ∧ e.1 ∉ (al.stays want l).map recordName := by
  unfold Scheme.left
  rw [Std.ExtTreeMap.toList_filter, List.mem_filter, Table.mem_toList, decide_eq_true_eq]

theorem stays_names {want : Std.ExtTreeMap String S} {s : Store} {n : String}
    (h : n ∈ (al.stays want (s.listing k)).map recordName) : ∃ o ∈ al.stays want (s.listing k),
      recordName o = n ∧ Holds s k o := by
  obtain ⟨o, ho, hn⟩ := List.mem_map.mp h
  exact ⟨o, ho, hn, mem_listing.mp ((Repair.kept_sublist _ _).subset ho)⟩

/-- A pass of either controller is the repair of its scheme. -/
theorem solo_repairPass {scan : AllocState S D → k.Obj → Code (AllocState S D)}
    {allocate : AllocState S D → S → Code (AllocState S D)} (hscan : al.ScanStep scan)
    (halloc : al.AllocateStep allocate) (want : Std.ExtTreeMap String S)
    (hwant : ∀ (n : String) sp, want[n]? = some sp → al.name sp = n ∧ validName n) (w : World) :
    Alone (fun _ w' => Outcome al want w.store w'.store) (repairPass scan allocate want (w.store.listing k)) w := by
  unfold repairPass
  have hnames : ((w.store.listing k).map recordName).Nodup := listing_names w.store k
  have hloop := solo_scan hscan want (w.store.listing k) { want := want } w hnames
    (fun o ho => mem_listing.mp ho) fun _ _ => rfl
  apply solo_bind hloop
  intro st₁ w₁ ⟨hw₁, hu₁, hsw⟩
  have hleft : st₁.want = al.left want (w.store.listing k) := by
    apply Std.ExtTreeMap.ext_getElem?
    intro n
    rw [hw₁ n, get_left]
    rfl
  have habs : ∀ e ∈ (al.left want (w.store.listing k)).toList, w₁.store.lookup k e.1 = none := by
    intro e he
    obtain ⟨-, hout⟩ := mem_left.mp he
    by_cases hin : e.1 ∈ (w.store.listing k).map recordName
    · exact hsw.gone e.1 hin hout
    · rw [hsw.rest e.1 fun h => absurd h hin]
      exact lookup_unlisted hin
  have hgo := solo_assign halloc (al.left want (w.store.listing k)).toList st₁ w₁ (Table.keys_nodup _)
    (fun e he => hwant e.1 e.2 (mem_left.mp he).1) habs
  rw [hleft]
  apply solo_bind hgo
  intro st₂ w₂ hm
  have hserved : Repair.assign (fun s => al.room (al.cls s)) (al.left want (w.store.listing k)).toList st₁.used =
      al.served want (w.store.listing k) := by
    rw [hu₁]
    rfl
  rw [hserved] at hm
  have hout : ∀ n ∈ (al.served want (w.store.listing k)).map Prod.fst,
      n ∉ (al.stays want (w.store.listing k)).map recordName := by
    intro n hn
    obtain ⟨f, hf, rfl⟩ := List.mem_map.mp ((Repair.assign_names _ _).subset hn)
    exact (mem_left.mp hf).2
  refine ⟨?_, ?_, ?_, ?_, ?_⟩
  · intro o ho
    have hin : recordName o ∈ (al.stays want (w.store.listing k)).map recordName := List.mem_map_of_mem ho
    have hh : Holds w.store k o := mem_listing.mp ((Repair.kept_sublist _ _).subset ho)
    show w₂.store.lookup k (recordName o) = _
    rw [hm.rest _ fun hs => hout _ hs hin, hsw.rest _ fun _ => hin]
    exact hh
  · intro e he
    obtain ⟨sp, m, r, hin, hroom, hl⟩ := hm.new e he
    exact ⟨sp, m, r, (mem_left.mp hin).1, hroom, hl⟩
  · intro n hn hn'
    rw [hm.rest n hn']
    by_cases hin : n ∈ (w.store.listing k).map recordName
    · exact hsw.gone n hin hn
    · rw [hsw.rest n fun h => absurd h hin]
      exact lookup_unlisted hin
  · intro k' hk'
    rw [hm.others k' hk', hsw.others k' hk']
  · intro hstay hserve
    rw [hm.quiet hserve, hsw.quiet hstay]

end Walk

end Klite
