import Klite.Store.Reason

/-!
# Counting stored objects

How the number of objects with a property moves when one object is created,
edited or removed.
-/

namespace Klite
open Lib

def Store.count (s : Store) (k : Kind) (p : k.Obj → Bool) : ℕ := (s.listing k).countP p

section Count
variable (s : Store) {k : Kind} (p : k.Obj → Bool)

theorem count_table : s.count k p = Table.count (fun e => p (stamp e.1 e.2)) (s.tbl k) := by
  unfold Store.count Store.listing Table.count
  rw [List.countP_map]
  rfl

theorem count_lookup {n : String} {o : k.Obj} {r : Int} (h : s.lookup k n = some (o, r)) :
    s.count k p = Table.count (fun e => p (stamp e.1 e.2)) ((s.tbl k).erase n) + one (p o) := by
  unfold Store.lookup at h
  obtain ⟨⟨o', r'⟩, hg, he⟩ := Option.map_eq_some_iff.mp h
  cases he
  rw [count_table, Table.count_of_get _ hg]

theorem count_absent {n : String} (h : s.lookup k n = none) :
    s.count k p = Table.count (fun e => p (stamp e.1 e.2)) ((s.tbl k).erase n) := by
  rw [count_table, Table.erase_of_none (Option.map_eq_none_iff.mp h)]

theorem count_write_tail (o : k.Obj) (u : Uid) (hv : validName (metaOf o).name) : (s.write k o u hv).count k p =
      Table.count (fun e => p (stamp e.1 e.2)) ((s.tbl k).erase (metaOf o).name) + one (p (stamp o (s.rev + 1))) := by
  rw [count_table]
  unfold Store.write
  dsimp only
  rw [Function.update_self, Table.count_insert, stamp_stamp]

theorem count_write {o cur : k.Obj} {r : Int} (u : Uid) (hv : validName (metaOf o).name)
    (h : s.lookup k (metaOf o).name = some (cur, r)) :
    (s.write k o u hv).count k p + one (p cur) = s.count k p + one (p (stamp o (s.rev + 1))) := by
  rw [count_write_tail, count_lookup s p h]
  omega

theorem count_write_new {o : k.Obj} (u : Uid) (hv : validName (metaOf o).name) (h : s.lookup k (metaOf o).name = none) :
    (s.write k o u hv).count k p = s.count k p + one (p (stamp o (s.rev + 1))) := by
  rw [count_write_tail, count_absent s p h]

theorem count_remove {n : String} {cur : k.Obj} {r : Int} (h : s.lookup k n = some (cur, r)) :
    (s.remove k n).count k p + one (p cur) = s.count k p := by
  rw [count_lookup s p h, count_table]
  unfold Store.remove
  dsimp only
  rw [Function.update_self]

theorem count_other_kind {s' : Store} (h : s'.tbl k = s.tbl k) : s'.count k p = s.count k p := by
  rw [count_table, count_table, h]

theorem count_eq_zero {p : k.Obj → Bool} (h : ∀ o, Holds s k o → p o = false) : s.count k p = 0 := by
  unfold Store.count
  rw [List.countP_eq_zero]
  intro o ho
  rw [h o (mem_listing.mp ho)]
  exact Bool.false_ne_true

theorem count_pos {p : k.Obj → Bool} {o : k.Obj} (ho : Holds s k o) (hp : p o) : 0 < s.count k p :=
  List.countP_pos_iff.mpr ⟨o, mem_listing.mpr ho, hp⟩

end Count

/- One object takes the place of another: `none` where there was none, or where it is gone. -/
structure Swap (s s' : Store) (k : Kind) (cur new : Option k.Obj) : Prop where
  held : ∀ o ∈ cur, Holds s k o
  count : ∀ p : k.Obj → Bool, s'.count k p + one (cur.any p) = s.count k p + one (new.any p)

section Change
variable {R : Rights} {h : Log} {w : World} {op : Op} {s' : Store}

theorem change_swap (hc : Change R h w op s') (k : Kind) : Swap w.store s' k none none ∨
    (∃ o, op = .put k o revCreate ∧ R.create k h w o ∧ w.store.rev ≠ s'.rev ∧
      Swap w.store s' k none (some (stamp (minted w.store w.unix o) (w.store.rev + 1)))) ∨
    (∃ cur o, op = .put k o (metaOf cur).resourceVersion ∧ (metaOf cur).name = (metaOf o).name ∧
      R.edit k h w cur o ∧ Swap w.store s' k (some cur) (some (stamp o (w.store.rev + 1)))) ∨
    (∃ cur, R.remove k h w cur ∧ Swap w.store s' k (some cur) none) := by
  have hnone : ∀ o ∈ (none : Option k.Obj), Holds w.store k o := nofun
  have hkind : s'.tbl k = w.store.tbl k → Swap w.store s' k none none :=
    fun hk => ⟨hnone, fun p => congrArg (· + 0) (count_other_kind w.store p hk)⟩
  cases hc with
  | same => exact Or.inl (hkind rfl)
  | create k' o hv hn hr =>
    by_cases hk : k = k'
    · subst hk
      have hm : (metaOf (minted w.store w.unix o)).name = (metaOf o).name := by
        rw [metaOf_minted, stampNew_name]
      refine Or.inr (Or.inl ⟨o, rfl, hr, ?_, hnone, fun p => ?_⟩)
      · show w.store.rev ≠ w.store.rev + 1
        omega
      · exact count_write_new w.store p (o := minted w.store w.unix o) _ (by rw [hm]; exact hv)
          (by rw [hm]; exact hn)
    · exact Or.inl (hkind (Function.update_of_ne hk _ _))
  | edit k' cur o r hv hl hr =>
    by_cases hk : k = k'
    · subst hk
      have hcur := lookup_some hl
      refine Or.inr (Or.inr (Or.inl ⟨cur, o, by rw [hcur.2.1], hcur.1, hr, ?_, fun p => ?_⟩))
      · rintro _ ⟨⟩
        exact holds_of_lookup hl
      · exact count_write w.store p _ hv hl
    · exact Or.inl (hkind (Function.update_of_ne hk _ _))
  | remove op k' n cur r hop hl hr =>
    by_cases hk : k = k'
    · subst hk
      refine Or.inr (Or.inr (Or.inr ⟨cur, hr, ?_, fun p => count_remove w.store p hl⟩))
      rintro _ ⟨⟩
      exact holds_of_lookup hl
    · exact Or.inl (hkind (Function.update_of_ne hk _ _))

end Change

end Klite
