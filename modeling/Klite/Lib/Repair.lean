import Mathlib.Data.List.Nodup
import Mathlib.Data.List.Pairwise
import Mathlib.Data.List.Perm.Subperm

/-!
# Repairing a table of addresses

Records hold addresses, and some records are wrong: nobody wants them, or they share an
address. A walk over the records keeps the first holder of each address and reserves every
address it meets; what is wanted and has no record then gets the first address of its room
that nobody holds.
-/

namespace Klite.Lib.Repair

section Kept
variable {A D : Type} (addr : A → Option D)

-- The addresses met by the walk.
def met (l : List A) (used : List D) : List D := l.foldl (fun u a => (addr a).toList ++ u) used

variable {addr}
variable {l : List A} {used : List D}

theorem mem_met {d : D} : d ∈ met addr l used ↔ d ∈ used ∨ ∃ a ∈ l, addr a = some d := by
  unfold met
  induction l generalizing used with
  | nil => simp
  | cons a l ih =>
    rw [List.foldl_cons, ih]
    simp only [List.mem_append, Option.mem_toList, List.mem_cons, exists_eq_or_imp]
    tauto

variable [DecidableEq D] (addr) (fits : A → Bool)

/-- The records that stay, with the addresses that were met before them. -/
def kept : List A → List D → List A
  | [], _ => []
  | a :: l, used =>
    if fits a && (addr a).all (fun d => d ∉ used) then a :: kept l ((addr a).toList ++ used)
    else kept l ((addr a).toList ++ used)

variable {addr fits}

theorem kept_sublist (l : List A) (used : List D) : (kept addr fits l used).Sublist l := by
  induction l generalizing used with
  | nil => exact List.Sublist.slnil
  | cons a l ih =>
    rw [kept]
    split
    · exact (ih _).cons_cons a
    · exact (ih _).cons a

theorem mem_kept {a : A} (h : a ∈ kept addr fits l used) : fits a ∧ ∀ d, addr a = some d → d ∉ used := by
  induction l generalizing used with
  | nil => cases h
  | cons b l ih =>
    rw [kept] at h
    have hrest : a ∈ kept addr fits l ((addr b).toList ++ used) → fits a ∧ ∀ d, addr a = some d → d ∉ used := by
      intro hm
      obtain ⟨hf, hd⟩ := ih hm
      exact ⟨hf, fun d had hu => hd d had (List.mem_append_right _ hu)⟩
    split at h
    · rename_i hk
      rcases List.mem_cons.mp h with rfl | hm
      · simp only [Bool.and_eq_true] at hk
        refine ⟨hk.1, ?_⟩
        intro d had
        have hall := hk.2
        rw [had] at hall
        simpa using hall
      · exact hrest hm
    · exact hrest h

theorem kept_distinct (l : List A) (used : List D) :
    (kept addr fits l used).Pairwise fun a b => ∀ d, addr a = some d → addr b ≠ some d := by
  induction l generalizing used with
  | nil => exact List.Pairwise.nil
  | cons a l ih =>
    rw [kept]
    split
    · apply List.Pairwise.cons _ (ih _)
      intro b hb d had hbd
      exact (mem_kept hb).2 d hbd (List.mem_append_left _ (by simp [had]))
    · exact ih _

theorem kept_inj {a b : A} {d : D} (ha : a ∈ kept addr fits l used) (hb : b ∈ kept addr fits l used)
    (had : addr a = some d) (hbd : addr b = some d) : a = b := by
  by_contra hne
  have hsymm : Std.Symm fun a b : A => ∀ d, addr a = some d → addr b ≠ some d :=
    ⟨fun a b hab d hb ha => hab d ha hb⟩
  exact (kept_distinct l used).forall ha hb hne d had hbd

theorem kept_first {l₁ l₂ : List A} {a : A} (hf : fits a)
    (hd : ∀ d, addr a = some d → d ∉ used ∧ ∀ b ∈ l₁, addr b ≠ some d) : a ∈ kept addr fits (l₁ ++ a :: l₂) used := by
  induction l₁ generalizing used with
  | nil =>
    have hall : (addr a).all (fun d => d ∉ used) = true := by
      cases had : addr a with
      | none => rfl
      | some d => simpa using (hd d had).1
    rw [List.nil_append, kept, hf, hall]
    exact List.mem_cons_self
  | cons b l₁ ih =>
    have hin : a ∈ kept addr fits (l₁ ++ a :: l₂) ((addr b).toList ++ used) := by
      apply ih
      intro d had
      obtain ⟨hu, hl⟩ := hd d had
      refine ⟨?_, fun b' hb' => hl b' (List.mem_cons_of_mem _ hb')⟩
      intro hm
      rcases List.mem_append.mp hm with hm | hm
      · exact hl b List.mem_cons_self (by simpa using hm)
      · exact hu hm
    rw [List.cons_append, kept]
    split
    · exact List.mem_cons_of_mem _ hin
    · exact hin

theorem kept_all (hf : ∀ a ∈ l, fits a) (hu : ∀ a ∈ l, ∀ d, addr a = some d → d ∉ used)
    (hp : l.Pairwise fun a b => ∀ d, addr a = some d → addr b ≠ some d) : kept addr fits l used = l := by
  induction l generalizing used with
  | nil => rfl
  | cons a l ih =>
    obtain ⟨ha, hl⟩ := List.pairwise_cons.mp hp
    have hall : (addr a).all (fun d => d ∉ used) = true := by
      cases had : addr a with
      | none => rfl
      | some d => simpa using hu a List.mem_cons_self d had
    rw [kept, hf a List.mem_cons_self, hall]
    have hrest : kept addr fits l ((addr a).toList ++ used) = l := by
      apply ih (fun b hb => hf b (List.mem_cons_of_mem _ hb)) _ hl
      intro b hb d hbd hm
      rcases List.mem_append.mp hm with hm | hm
      · exact ha b hb d (by simpa using hm) hbd
      · exact hu b (List.mem_cons_of_mem _ hb) d hbd hm
    simp [hrest]

end Kept

section Assign
variable {N S D : Type} [DecidableEq D] (room : S → List D)

/-- The first address of the room that nobody holds. -/
def pick (r used : List D) : Option D := r.find? fun d => d ∉ used

/-- What is wanted is served in order; a full room leaves the others to be served. -/
def assign : List (N × S) → List D → List (N × D)
  | [], _ => []
  | e :: rest, used =>
    match pick (room e.2) used with
    | some d => (e.1, d) :: assign rest (d :: used)
    | none => assign rest used

variable {room}
variable {d : D}

theorem pick_some {r used : List D} (h : pick r used = some d) : d ∈ r ∧ d ∉ used := by
  unfold pick at h
  have hm := List.mem_of_find?_eq_some h
  have hp := List.find?_some h
  exact ⟨hm, of_decide_eq_true hp⟩

theorem pick_none {r used : List D} (h : pick r used = none) (hd : d ∈ r) : d ∈ used := by
  unfold pick at h
  have hn := List.find?_eq_none.mp h d hd
  simpa using hn

theorem mem_assign {rest : List (N × S)} {used : List D} {e : N × D} (h : e ∈ assign room rest used) :
    e.2 ∉ used ∧ ∃ s, (e.1, s) ∈ rest ∧ e.2 ∈ room s := by
  induction rest generalizing used with
  | nil => cases h
  | cons f rest ih =>
    rw [assign] at h
    split at h
    · rename_i d hpick
      obtain ⟨hroom, hfree⟩ := pick_some hpick
      rcases List.mem_cons.mp h with rfl | hm
      · exact ⟨hfree, f.2, List.mem_cons_self, hroom⟩
      · obtain ⟨hu, s, hs, hr⟩ := ih hm
        exact ⟨fun hin => hu (List.mem_cons_of_mem _ hin), s, List.mem_cons_of_mem _ hs, hr⟩
    · obtain ⟨hu, s, hs, hr⟩ := ih h
      exact ⟨hu, s, List.mem_cons_of_mem _ hs, hr⟩

theorem assign_names (rest : List (N × S)) (used : List D) :
    ((assign room rest used).map Prod.fst).Sublist (rest.map Prod.fst) := by
  induction rest generalizing used with
  | nil => exact List.Sublist.slnil
  | cons f rest ih =>
    rw [assign]
    split
    · exact (ih _).cons_cons f.1
    · exact (ih _).cons f.1

theorem assign_distinct (rest : List (N × S)) (used : List D) : ((assign room rest used).map Prod.snd).Nodup := by
  induction rest generalizing used with
  | nil => exact List.nodup_nil
  | cons f rest ih =>
    rw [assign]
    split
    · rename_i d _
      rw [List.map_cons, List.nodup_cons]
      refine ⟨?_, ih _⟩
      intro hm
      obtain ⟨e, he, hd⟩ := List.mem_map.mp hm
      exact (mem_assign he).1 (by rw [hd]; exact List.mem_cons_self)
    · exact ih _

/-- What is left without an address has a room that is full at the end. -/
theorem assign_exhausted {rest : List (N × S)} {used : List D} {n : N} {s : S} (h : (n, s) ∈ rest)
    (hn : ∀ d, (n, d) ∉ assign room rest used) (hd : d ∈ room s) : d ∈ used ∨ ∃ e ∈ assign room rest used, e.2 = d := by
  induction rest generalizing used with
  | nil => cases h
  | cons f rest ih =>
    rw [assign] at hn ⊢
    split at hn <;> rename_i hpick
    · rename_i d'
      rcases List.mem_cons.mp h with rfl | hm
      · exact absurd List.mem_cons_self (hn d')
      · have hrest : d ∈ d' :: used ∨ ∃ e ∈ assign room rest (d' :: used), e.2 = d :=
          ih hm fun d hin => hn d (List.mem_cons_of_mem _ hin)
        rcases hrest with hu | ⟨e, he, hed⟩
        · rcases List.mem_cons.mp hu with rfl | hu
          · exact Or.inr ⟨(f.1, d), List.mem_cons_self, rfl⟩
          · exact Or.inl hu
        · exact Or.inr ⟨e, List.mem_cons_of_mem _ he, hed⟩
    · rcases List.mem_cons.mp h with rfl | hm
      · exact Or.inl (pick_none hpick hd)
      · exact ih hm hn

end Assign

section Room
variable {N S D C : Type} [DecidableEq D] [DecidableEq C]

theorem countP_le_add {α : Type} (l : List α) (p q r : α → Bool) (h : ∀ x, p x → q x ∨ r x) :
    l.countP p ≤ l.countP q + l.countP r := by
  induction l with
  | nil => simp
  | cons x l ih =>
    have hx := h x
    simp only [List.countP_cons]
    cases hp : p x <;> cases hq : q x <;> cases hr : r x <;> simp_all <;> omega

theorem countP_cons_le (r used : List D) (d : D) (hr : r.Nodup) :
    r.countP (fun x => x ∈ d :: used) ≤ r.countP (fun x => x ∈ used) + 1 := by
  have hone : r.count d ≤ 1 := List.nodup_iff_count_le_one.mp hr d
  have hsplit := countP_le_add r (fun x => x ∈ d :: used) (fun x => x ∈ used) (fun x => x == d) (by
    intro x hx
    rcases List.mem_cons.mp (of_decide_eq_true hx) with he | hm
    · exact Or.inr (by simpa using he)
    · exact Or.inl (by simpa using hm))
  have hcount : r.countP (fun x => x == d) = r.count d := rfl
  omega

theorem countP_cons_other (r used : List D) (d : D) (hd : d ∉ r) :
    r.countP (fun x => x ∈ d :: used) = r.countP (fun x => x ∈ used) := by
  apply List.countP_congr
  intro x hx
  have hne : x ≠ d := fun he => hd (he ▸ hx)
  simp [hne]

/-- A room that is large enough for what is wanted of it serves all of it. -/
theorem assign_all {cls : S → C} {room : C → List D} {c : C} (hnodup : (room c).Nodup)
    (hdisj : ∀ c', c' ≠ c → ∀ d ∈ room c', d ∉ room c) (rest : List (N × S)) (used : List D)
    (hfit : rest.countP (fun e => cls e.2 = c) + (room c).countP (fun d => d ∈ used) ≤ (room c).length)
    {e : N × S} (he : e ∈ rest) (hc : cls e.2 = c) : ∃ d, (e.1, d) ∈ assign (fun s => room (cls s)) rest used := by
  induction rest generalizing used with
  | nil => cases he
  | cons f rest ih =>
    rw [List.countP_cons] at hfit
    by_cases hf : cls f.2 = c
    · simp only [hf, decide_true, if_true] at hfit
      -- The room is not full, so the head is served.
      obtain ⟨d, hpick⟩ : ∃ d, pick (room c) used = some d := by
        cases hp : pick (room c) used with
        | some d => exact ⟨d, rfl⟩
        | none =>
          have hall : (room c).countP (fun d => d ∈ used) = (room c).length := by
            apply List.countP_eq_length.mpr
            intro d hd
            simpa using pick_none hp hd
          omega
      have hcount := countP_cons_le (room c) used d hnodup
      rw [assign, hf, hpick]
      rcases List.mem_cons.mp he with rfl | hm
      · exact ⟨d, List.mem_cons_self⟩
      · obtain ⟨d', hd'⟩ := ih (d :: used) (by omega) hm
        exact ⟨d', List.mem_cons_of_mem _ hd'⟩
    · have hrest : rest.countP (fun e => cls e.2 = c) + (room c).countP (fun d => d ∈ used) ≤ (room c).length := by
        simpa [hf] using hfit
      have hm : e ∈ rest := by
        rcases List.mem_cons.mp he with rfl | hm
        · exact absurd hc hf
        · exact hm
      rw [assign]
      split
      · rename_i d hpick
        have hcount := countP_cons_other (room c) used d (hdisj _ hf d (pick_some hpick).1)
        obtain ⟨d', hd'⟩ := ih (d :: used) (by omega) hm
        exact ⟨d', List.mem_cons_of_mem _ hd'⟩
      · exact ih used hrest hm

theorem held_le {W : List (N × S)} {p : N × S → Bool} {held : N → Option D} {r used : List D} (hr : r.Nodup)
    (h : ∀ d ∈ r, d ∈ used → ∃ e ∈ W, p e ∧ held e.1 = some d) :
    r.countP (fun d => d ∈ used) ≤ W.countP fun e => p e && (held e.1).isSome := by
  have hsub : r.filter (fun d => d ∈ used) ⊆ (W.filter p).filterMap fun e => held e.1 := by
    intro d hd
    obtain ⟨hdr, hdu⟩ := List.mem_filter.mp hd
    obtain ⟨e, he, hpe, hheld⟩ := h d hdr (of_decide_eq_true hdu)
    exact List.mem_filterMap.mpr ⟨e, List.mem_filter.mpr ⟨he, hpe⟩, hheld⟩
  have hlen := ((hr.filter _).subperm hsub).length_le
  have hmap : ((W.filter p).filterMap fun e => held e.1).length = (W.filter p).countP fun e => (held e.1).isSome := by
    rw [List.length_filterMap_eq_countP]
  rw [← List.countP_eq_length_filter] at hlen
  rw [hmap, List.countP_filter] at hlen
  have hcomm : W.countP (fun e => (held e.1).isSome && p e) = W.countP fun e => p e && (held e.1).isSome :=
    List.countP_congr fun e _ => by simp [and_comm]
  omega

theorem countP_split (W : List (N × S)) (p q : N × S → Bool) :
    W.countP p = W.countP (fun e => p e && q e) + W.countP fun e => p e && !q e := by
  induction W with
  | nil => rfl
  | cons e W ih =>
    simp only [List.countP_cons]
    cases p e <;> cases q e <;> simp <;> omega

end Room

end Klite.Lib.Repair
