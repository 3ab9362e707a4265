import Mathlib.Data.List.Basic
import Mathlib.Data.List.Forall2
import Mathlib.Data.List.Nodup
import Mathlib.Data.List.Perm.Basic
import Mathlib.Data.List.Perm.Subperm
import Mathlib.Data.String.Basic

/-!
# Counting in ordered maps

`Std.ExtTreeMap` with the lemmas a store of records needs: lookups after an
update in terms of equality of keys, and how the number of records with a
property changes when one record is written or removed.
-/

namespace Klite.Lib

/-- What one value adds to a count. -/
def one (b : Bool) : ℕ := if b then 1 else 0

namespace Table

variable {κ V : Type} [Ord κ] [Std.TransOrd κ] [Std.LawfulEqOrd κ]

theorem get_insert [DecidableEq κ] (t : Std.ExtTreeMap κ V) (k a : κ) (v : V) :
    (t.insert k v)[a]? = if k = a then some v else t[a]? := by
  rw [Std.ExtTreeMap.getElem?_insert]
  simp only [Std.LawfulEqOrd.compare_eq_iff_eq]

theorem get_erase [DecidableEq κ] (t : Std.ExtTreeMap κ V) (k a : κ) :
    (t.erase k)[a]? = if k = a then none else t[a]? := by
  rw [Std.ExtTreeMap.getElem?_erase]
  simp only [Std.LawfulEqOrd.compare_eq_iff_eq]

variable {t : Std.ExtTreeMap κ V} {v : V}

theorem get_of_erase {k a : κ} (h : (t.erase k)[a]? = some v) : k ≠ a ∧ t[a]? = some v := by
  classical
  rw [get_erase] at h
  split at h
  · cases h
  · rename_i hne
    exact ⟨hne, h⟩

theorem get_filter (t : Std.ExtTreeMap κ V) (f : κ → V → Bool) (a : κ) : (t.filter f)[a]? = t[a]?.filter (f a) := by
  rw [Std.ExtTreeMap.getElem?_filter]
  simp only [Std.ExtTreeMap.getKey_eq, Option.pfilter_eq_filter]

variable {k : κ}

theorem mem_toList : (k, v) ∈ t.toList ↔ t[k]? = some v :=
  Std.ExtTreeMap.mem_toList_iff_getElem?_eq_some

theorem mem_map_toList {β : Type} (t : Std.ExtTreeMap κ V) (f : κ × V → β) (b : β) :
    b ∈ t.toList.map f ↔ ∃ k v, t[k]? = some v ∧ b = f (k, v) := by
  rw [List.mem_map]
  constructor
  · rintro ⟨⟨k, v⟩, hm, rfl⟩
    exact ⟨k, v, mem_toList.mp hm, rfl⟩
  · rintro ⟨k, v, hv, rfl⟩
    exact ⟨(k, v), mem_toList.mpr hv, rfl⟩

theorem lookup_toList [BEq κ] [LawfulBEq κ] (t : Std.ExtTreeMap κ V) (k : κ) : t.toList.lookup k = t[k]? := by
  cases h : t.toList.lookup k with
  | none =>
    rw [List.lookup_eq_none_iff] at h
    cases hk : t[k]? with
    | none => rfl
    | some v => exact absurd rfl (bne_iff_ne.mp (h _ (mem_toList.mpr hk)))
  | some v =>
    obtain ⟨l, l', hl, -⟩ := List.lookup_eq_some_iff.mp h
    refine (mem_toList.mp ?_).symm
    rw [hl]
    exact List.mem_append_right l List.mem_cons_self

theorem toList_nodup (t : Std.ExtTreeMap κ V) : t.toList.Nodup := by
  refine List.Pairwise.imp ?_ (Std.ExtTreeMap.distinct_keys_toList (t := t))
  intro a b hab he
  exact hab (by rw [he]; exact Std.ReflOrd.compare_self)

theorem keys_nodup (t : Std.ExtTreeMap κ V) : (t.toList.map (·.1)).Nodup := by
  rw [List.nodup_map_iff_inj_on (toList_nodup t)]
  rintro ⟨k, v⟩ hx ⟨k', v'⟩ hy he
  simp only at he
  subst he
  rw [mem_toList] at hx hy
  rw [hx] at hy
  rw [Option.some.inj hy]

theorem perm_of_get (h : t[k]? = some v) : t.toList.Perm ((k, v) :: (t.erase k).toList) := by
  classical
  rw [List.perm_ext_iff_of_nodup (toList_nodup t) ?_]
  · rintro ⟨a, b⟩
    rw [List.mem_cons, mem_toList, mem_toList, get_erase]
    by_cases hk : k = a
    · subst hk
      simp only [h, if_pos, reduceCtorEq, or_false, Prod.mk.injEq, true_and, Option.some.injEq]
      exact eq_comm
    · have hne : a ≠ k := fun he => hk he.symm
      simp [hk, hne]
  · refine List.nodup_cons.mpr ⟨?_, toList_nodup _⟩
    rw [mem_toList, get_erase]
    simp

theorem erase_insert (t : Std.ExtTreeMap κ V) (k : κ) (v : V) : (t.insert k v).erase k = t.erase k := by
  classical
  refine Std.ExtTreeMap.ext_getElem? fun a => ?_
  rw [get_erase, get_insert, get_erase]
  split <;> rfl

theorem erase_of_none (h : t[k]? = none) : t.erase k = t := by
  classical
  refine Std.ExtTreeMap.ext_getElem? fun a => ?_
  rw [get_erase]
  split
  · rename_i hk
    rw [← hk, h]
  · rfl

theorem insert_erase (h : t[k]? = some v) : (t.erase k).insert k v = t := by
  classical
  refine Std.ExtTreeMap.ext_getElem? fun a => ?_
  rw [get_insert, get_erase]
  split
  · rename_i hk
    rw [← hk, h]
  · rfl

/-- How many values of the map have the property. -/
def count (p : V → Bool) (t : Std.ExtTreeMap κ V) : ℕ := t.toList.countP fun x => p x.2

theorem count_of_get (p : V → Bool) (h : t[k]? = some v) : count p t = count p (t.erase k) + one (p v) := by
  unfold count one
  rw [(perm_of_get h).countP_eq, List.countP_cons]

theorem count_insert (p : V → Bool) (t : Std.ExtTreeMap κ V) (k : κ) (v : V) :
    count p (t.insert k v) = count p (t.erase k) + one (p v) := by
  classical
  have h : (t.insert k v)[k]? = some v := by rw [get_insert, if_pos rfl]
  rw [count_of_get p h, erase_insert]

section Fill
variable [DecidableEq κ]

/-- The entries written one after the other: a later one replaces an earlier one. -/
def fill (t : Std.ExtTreeMap κ V) (l : List (κ × V)) : Std.ExtTreeMap κ V :=
  l.foldl (fun m e => m.insert e.1 e.2) t

variable {l : List (κ × V)}

theorem get_fill_some (h : (fill t l)[k]? = some v) : (k, v) ∈ l ∨ t[k]? = some v := by
  induction l generalizing t with
  | nil => exact Or.inr h
  | cons e l ih =>
    rcases ih (t := t.insert e.1 e.2) h with hm | hg
    · exact Or.inl (List.mem_cons_of_mem _ hm)
    · rw [get_insert] at hg
      split at hg
      · rename_i hk
        cases hg
        exact Or.inl (by rw [← hk]; exact List.mem_cons_self)
      · exact Or.inr hg

theorem length_fill_le (l : List (κ × V)) : (fill ∅ l).toList.length ≤ l.length := by
  have hsub : (fill ∅ l).toList.map (·.1) ⊆ l.map (·.1) := by
    intro k hk
    obtain ⟨⟨k', v⟩, he, rfl⟩ := List.mem_map.mp hk
    rcases get_fill_some (mem_toList.mp he) with hm | hm
    · exact List.mem_map_of_mem hm
    · simp at hm
  have hlen := ((keys_nodup _).subperm hsub).length_le
  simpa using hlen

theorem get_fill_absent (h : ∀ v, (k, v) ∉ l) : (fill t l)[k]? = t[k]? := by
  induction l generalizing t with
  | nil => rfl
  | cons e l ih =>
    have hk : e.1 ≠ k := fun hk => h e.2 (by rw [← hk]; exact List.mem_cons_self)
    show (fill (t.insert e.1 e.2) l)[k]? = t[k]?
    rw [ih fun v hv => h v (List.mem_cons_of_mem _ hv), get_insert, if_neg hk]

theorem get_fill_isSome (hm : (k, v) ∈ l) : ∃ v', (fill t l)[k]? = some v' := by
  induction l generalizing t v with
  | nil => cases hm
  | cons e l ih =>
    show ∃ v', (fill (t.insert e.1 e.2) l)[k]? = some v'
    by_cases hl : ∃ v', (k, v') ∈ l
    · obtain ⟨v', hv'⟩ := hl
      exact ih hv'
    · rw [get_fill_absent fun v' hv' => hl ⟨v', hv'⟩, get_insert]
      obtain rfl := (List.mem_cons.mp hm).resolve_right fun hin => hl ⟨v, hin⟩
      exact ⟨v, if_pos rfl⟩

theorem get_fill_mem (hm : (k, v) ∈ l) (hu : ∀ v', (k, v') ∈ l → v' = v) : (fill t l)[k]? = some v := by
  induction l generalizing t with
  | nil => cases hm
  | cons e l ih =>
    show (fill (t.insert e.1 e.2) l)[k]? = some v
    by_cases hl : (k, v) ∈ l
    · exact ih hl fun v' hv' => hu v' (List.mem_cons_of_mem _ hv')
    · have hnone : ∀ v', (k, v') ∉ l := fun v' hv' => by
        rw [hu v' (List.mem_cons_of_mem _ hv')] at hv'
        exact hl hv'
      rw [get_fill_absent hnone, get_insert]
      obtain rfl := (List.mem_cons.mp hm).resolve_right hl
      exact if_pos rfl

theorem fill_toList (t : Std.ExtTreeMap κ V) : fill ∅ t.toList = t := by
  refine Std.ExtTreeMap.ext_getElem? fun k => ?_
  cases hk : t[k]? with
  | none =>
    have habs : ∀ v, (k, v) ∉ t.toList := by
      intro v hv
      rw [mem_toList, hk] at hv
      cases hv
    rw [get_fill_absent habs, Std.ExtTreeMap.getElem?_empty]
  | some v =>
    refine get_fill_mem (mem_toList.mpr hk) fun v' hv' => ?_
    rw [mem_toList, hk] at hv'
    exact (Option.some.inj hv').symm

theorem get_fill_key {A : Type} {key : A → κ} {f : A → V} (t : Std.ExtTreeMap κ V) {l : List A} {a : A} (ha : a ∈ l)
    (hu : ∀ b ∈ l, key b = key a → f b = f a) : (fill t (l.map fun a => (key a, f a)))[key a]? = some (f a) := by
  have hm : (key a, f a) ∈ l.map fun a => (key a, f a) := List.mem_map_of_mem ha
  apply get_fill_mem hm
  intro v hv
  obtain ⟨b, hb, he⟩ := List.mem_map.mp hv
  obtain ⟨hk, rfl⟩ := Prod.mk.inj he
  exact hu b hb hk

omit [Std.LawfulEqOrd κ] [DecidableEq κ] in
theorem fill_append (t : Std.ExtTreeMap κ V) (l m : List (κ × V)) : fill t (l ++ m) = fill (fill t l) m :=
  List.foldl_append

theorem get_fill_last {l m : List (κ × V)} (h : ∀ v', (k, v') ∉ m) : (fill t (l ++ (k, v) :: m))[k]? = some v := by
  rw [fill_append]
  show (fill ((fill t l).insert k v) m)[k]? = some v
  rw [get_fill_absent h]
  exact Std.ExtTreeMap.getElem?_insert_self

theorem fill_perm (h : (l.map (·.1)).Nodup) : (fill ∅ l).toList.Perm l := by
  classical
  rw [List.perm_ext_iff_of_nodup (toList_nodup _) h.of_map]
  rintro ⟨k, v⟩
  rw [mem_toList]
  constructor
  · intro hg
    exact (get_fill_some hg).resolve_right (by simp)
  · intro hm
    apply get_fill_mem hm
    intro v' hm'
    exact congrArg Prod.snd (List.inj_on_of_nodup_map h hm' hm rfl)

theorem get_fill_lookup [BEq κ] [LawfulBEq κ] (h : (l.map (·.1)).Nodup) (k : κ) : (fill ∅ l)[k]? = l.lookup k := by
  cases hl : l.lookup k with
  | none =>
    rw [List.lookup_eq_none_iff] at hl
    rw [get_fill_absent fun v hv => absurd rfl (bne_iff_ne.mp (hl _ hv)), Std.ExtTreeMap.getElem?_empty]
  | some v =>
    obtain ⟨l₁, l₂, rfl, -⟩ := List.lookup_eq_some_iff.mp hl
    apply get_fill_mem (List.mem_append_right l₁ List.mem_cons_self)
    intro v' hv'
    exact congrArg Prod.snd (List.inj_on_of_nodup_map h hv' (List.mem_append_right l₁ List.mem_cons_self) rfl)

end Fill

theorem keys_sorted {V : Type} (t : Std.ExtTreeMap String V) : (t.toList.map (·.1)).Pairwise (· < ·) := by
  rw [List.pairwise_map]
  apply Std.ExtTreeMap.ordered_keys_toList.imp
  intro a b hab
  exact compareOfLessAndEq_eq_lt.mp hab

theorem forall₂_mem {α β : Type} {R S : α → β → Prop} {l : List α} {l' : List β} (h : List.Forall₂ R l l')
    (himp : ∀ a ∈ l, ∀ b ∈ l', R a b → S a b) : List.Forall₂ S l l' := by
  induction h with
  | nil => exact List.Forall₂.nil
  | cons hab _ ih =>
    refine List.Forall₂.cons (himp _ List.mem_cons_self _ List.mem_cons_self hab) (ih ?_)
    intro a ha b hb
    exact himp a (List.mem_cons_of_mem _ ha) b (List.mem_cons_of_mem _ hb)

theorem forall₂_right {α β : Type} {R : α → β → Prop} {l : List α} {l' : List β} (h : List.Forall₂ R l l') {b : β}
    (hb : b ∈ l') : ∃ a ∈ l, R a b := by
  induction h with
  | nil => cases hb
  | cons hab _ ih =>
    rcases List.mem_cons.mp hb with rfl | hb
    · exact ⟨_, List.mem_cons_self, hab⟩
    · obtain ⟨a, ha, hr⟩ := ih hb
      exact ⟨a, List.mem_cons_of_mem _ ha, hr⟩

theorem forall₂_countP {α : Type} {R : α → α → Prop} {P : α → Bool} {l l' : List α} (h : List.Forall₂ R l l')
    (hP : ∀ a b, R a b → P b = P a) : l'.countP P = l.countP P := by
  induction h with
  | nil => rfl
  | cons hab _ ih => rw [List.countP_cons, List.countP_cons, ih, hP _ _ hab]

theorem forall₂_of_map_eq {α β γ : Type} {f : α → γ} {f' : β → γ} {l : List α} {l' : List β}
    (h : l.map f = l'.map f') : List.Forall₂ (fun a b => f a = f' b) l l' := by
  have hmap : List.Forall₂ Eq (l.map f) (l'.map f') := by
    rw [h]
    exact List.forall₂_refl _
  rw [List.forall₂_map_left_iff, List.forall₂_map_right_iff] at hmap
  exact hmap

end Table

end Klite.Lib
