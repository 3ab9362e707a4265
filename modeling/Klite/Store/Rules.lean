import Klite.Store.Calls

/-!
# What a caller knows, and what it may do

A caller that read an object and writes or deletes at the revision it read hits
that very object or nothing: revisions are never used twice. `Rights` says which
objects a program may create, edit or remove, with the object that is really
stored at that moment, and `Within` asks it of every call a program makes.
-/

namespace Klite
open Lib

abbrev Log := Hist klited

def Holds (s : Store) (k : Kind) (o : k.Obj) : Prop :=
  s.lookup k (metaOf o).name = some (o, (metaOf o).resourceVersion)

variable {s : Store} {k : Kind} {n : String} {r : Int}

theorem lookup_some {o : k.Obj} (h : s.lookup k n = some (o, r)) :
    (metaOf o).name = n ∧ (metaOf o).resourceVersion = r ∧ validName n ∧ 0 < r ∧ r ≤ s.rev := by
  unfold Store.lookup at h
  obtain ⟨⟨o', r'⟩, hg, he⟩ := Option.map_eq_some_iff.mp h
  cases he
  have hw := s.wf k n o' r' hg
  rw [metaOf_stamp]
  exact ⟨hw.1, rfl, hw.2⟩

theorem holds_of_lookup {o : k.Obj} (h : s.lookup k n = some (o, r)) : Holds s k o := by
  have hl := lookup_some h
  unfold Holds
  rw [hl.1, hl.2.1]
  exact h

theorem mem_listing {o : k.Obj} : o ∈ s.listing k ↔ Holds s k o := by
  unfold Store.listing
  rw [List.mem_map]
  constructor
  · rintro ⟨⟨n, o', r⟩, hm, rfl⟩
    rw [Table.mem_toList] at hm
    refine holds_of_lookup (n := n) (r := r) ?_
    unfold Store.lookup
    rw [hm]
    rfl
  · intro h
    unfold Holds Store.lookup at h
    obtain ⟨⟨o', r⟩, hg, he⟩ := Option.map_eq_some_iff.mp h
    exact ⟨((metaOf o).name, o', r), Table.mem_toList.mpr hg, (Prod.mk.inj he).1⟩

theorem listing_name_inj {o o' : k.Obj} (h : o ∈ s.listing k) (h' : o' ∈ s.listing k)
    (hn : (metaOf o).name = (metaOf o').name) : o = o' := by
  rw [mem_listing] at h h'
  unfold Holds at h h'
  rw [hn, h'] at h
  exact (Prod.mk.inj (Option.some.inj h)).1.symm

theorem listing_keys (s : Store) (k : Kind) :
    (s.listing k).map (fun o => (metaOf o).name) = (s.tbl k).toList.map (·.1) := by
  unfold Store.listing
  rw [List.map_map]
  refine List.map_congr_left ?_
  rintro ⟨n, o, r⟩ hm
  have hw := s.wf k n o r (Table.mem_toList.mp hm)
  simp only [Function.comp_apply, metaOf_stamp]
  exact hw.1

theorem listing_names (s : Store) (k : Kind) : ((s.listing k).map fun o => (metaOf o).name).Nodup := by
  rw [listing_keys]
  exact Table.keys_nodup _

theorem listing_sorted (s : Store) (k : Kind) :
    (s.listing k).Pairwise fun o o' => (metaOf o).name < (metaOf o').name := by
  have hkeys : ((s.listing k).map fun o => (metaOf o).name).Pairwise fun a b => a < b := by
    rw [listing_keys]
    exact Table.keys_sorted _
  exact List.pairwise_map.mp hkeys

theorem listing_of_tbl {s s' : Store} (h : s'.tbl k = s.tbl k) : s'.listing k = s.listing k := by
  unfold Store.listing
  rw [h]

theorem holds_of_tbl {s s' : Store} (h : s'.tbl k = s.tbl k) {o : k.Obj} (ho : Holds s' k o) : Holds s k o := by
  rw [← mem_listing, ← listing_of_tbl h]
  exact mem_listing.mpr ho

theorem lookup_back {s s' : Store} {o : k.Obj} (he : Evolves s s') (hl : s'.lookup k n = some (o, r)) (hr : r ≤ s.rev) :
    s.lookup k n = some (o, r) := by
  unfold Store.lookup at hl ⊢
  obtain ⟨⟨o', r'⟩, hg, hst⟩ := Option.map_eq_some_iff.mp hl
  have hrev : r' = r := (Prod.mk.inj hst).2
  have hold := he.old k n o' r' hg (by omega)
  rw [hold, Option.map_some, hst]

theorem evolves_pinned {s s' : Store} {o cur : k.Obj} (h : Holds s k o) (he : Evolves s s')
    (hc : s'.lookup k (metaOf o).name = some (cur, (metaOf o).resourceVersion)) : cur = o := by
  have hold := lookup_back he hc (lookup_some h).2.2.2.2
  exact (Prod.mk.inj (Option.mem_unique hold h)).1

section Lookup
variable (s : Store) (k : Kind)

theorem lookup_write (o : k.Obj) (u : Uid) (hv : validName (metaOf o).name) (n : String) :
    (s.write k o u hv).lookup k n =
      if (metaOf o).name = n then some (stamp o (s.rev + 1), s.rev + 1) else s.lookup k n := by
  unfold Store.lookup Store.write
  dsimp only
  rw [Function.update_self, Table.get_insert]
  split
  · simp [stamp_stamp]
  · rfl

theorem lookup_write_kind {k' : Kind} (hk : k' ≠ k) (o : k.Obj) (u : Uid)
    (hv : validName (metaOf o).name) (n : String) : (s.write k o u hv).lookup k' n = s.lookup k' n := by
  unfold Store.lookup Store.write
  dsimp only
  rw [Function.update_of_ne hk]

theorem lookup_remove (m n : String) : (s.remove k m).lookup k n = if m = n then none else s.lookup k n := by
  unfold Store.lookup Store.remove
  dsimp only
  rw [Function.update_self, Table.get_erase]
  split <;> rfl

theorem lookup_remove_kind {k' : Kind} (hk : k' ≠ k) (m n : String) : (s.remove k m).lookup k' n = s.lookup k' n := by
  unfold Store.lookup Store.remove
  dsimp only
  rw [Function.update_of_ne hk]

end Lookup

def minted {k : Kind} (s : Store) (nowUnix : Int) (o : k.Obj) : k.Obj :=
  setMeta o (stampNew s.uids nowUnix (metaOf o)).1

theorem metaOf_minted (s : Store) (nowUnix : Int) (o : k.Obj) :
    metaOf (minted s nowUnix o) = (stampNew s.uids nowUnix (metaOf o)).1 := metaOf_setMeta _ _

theorem lookup_created (s : Store) (nowUnix : Int) (o : k.Obj) (hv : validName (metaOf o).name) (n : String) :
    (s.created nowUnix k o hv).lookup k n =
      if (metaOf o).name = n then some (stamp (minted s nowUnix o) (s.rev + 1), s.rev + 1) else s.lookup k n := by
  unfold Store.created
  rw [lookup_write, metaOf_setMeta, stampNew_name]
  rfl

structure Rights where
  create : (k : Kind) → Log → World → k.Obj → Prop
  edit : (k : Kind) → Log → World → k.Obj → k.Obj → Prop
  remove : (k : Kind) → Log → World → k.Obj → Prop

def Within (R : Rights) (h : Log) (w : World) : Op → Prop
  | .put k o rev =>
    (rev = revCreate ∧ R.create k h w o) ∨
    (0 < rev ∧ ∀ cur, w.store.lookup k (metaOf o).name = some (cur, rev) → R.edit k h w cur o)
  | .delete k n => ∀ cur r, w.store.lookup k n = some (cur, r) → R.remove k h w cur
  | .deleteIfRevision k n rev => ∀ cur, w.store.lookup k n = some (cur, rev) → R.remove k h w cur
  | _ => True

abbrev Obeys {α : Type} (R : Rights) (Q : Log → α → Prop) (p : Code α) (h : Log) : Prop := Follows klited (Within R) Q p h

abbrev Abides {α : Type} (R : Rights) (p : Code α) (h : Log) : Prop := Obeys R (fun _ _ => True) p h

/- What one admitted call does to the store, by kind of object. -/
inductive Change (R : Rights) (h : Log) (w : World) : Op → Store → Prop where
  | same (op : Op) : Change R h w op w.store
  | create (k : Kind) (o : k.Obj) (hv : validName (metaOf o).name)
      (hn : w.store.lookup k (metaOf o).name = none) (hr : R.create k h w o) :
      Change R h w (.put k o revCreate) (w.store.created w.unix k o hv)
  | edit (k : Kind) (cur o : k.Obj) (r : Int) (hv : validName (metaOf o).name)
      (hl : w.store.lookup k (metaOf o).name = some (cur, r)) (hr : R.edit k h w cur o) :
      Change R h w (.put k o r) (w.store.write k o w.store.uids hv)
  | remove (op : Op) (k : Kind) (n : String) (cur : k.Obj) (r : Int)
      (hop : op = .delete k n ∨ op = .deleteIfRevision k n r)
      (hl : w.store.lookup k n = some (cur, r)) (hr : R.remove k h w cur) :
      Change R h w op (w.store.remove k n)

theorem answer_store {α : Type} (c : Choice) (w : World) (x : Except StoreErr α × Store) :
    (answer c w x).2.store = w.store ∨ (answer c w x).2.store = x.2 := by
  unfold answer
  cases c.fault with
  | none => exact Or.inr rfl
  | lost => exact Or.inl rfl
  | unacked => exact Or.inr rfl

theorem exec_list {c : Choice} (hc : c.fault = .none) (k : Kind) (w : World) :
    exec c (.list k) w = (.ok (w.store.listing k, w.store.rev), w) := by
  unfold exec
  rw [hc]
  rfl

theorem solo_list {α : Type} {f : Except StoreErr (List k.Obj × Int) → Code α} {Q : α → World → Prop} {w : World}
    (h : Solo (M := klited) (fun c => c.fault = .none) Q (f (.ok (w.store.listing k, w.store.rev))) w) :
    Solo (M := klited) (fun c => c.fault = .none) Q (list k >>= f) w := by
  refine solo_call fun c hc r w' he => ?_
  obtain ⟨rfl, rfl⟩ := Prod.mk.inj (he.symm.trans (exec_list hc k w))
  exact h

def Reliable (c : Choice) : Prop := c.fault = .none

abbrev Alone {α : Type} (Q : α → World → Prop) (p : Code α) (w : World) : Prop := Solo (M := klited) Reliable Q p w

def calm : ℕ → Choice := fun _ => {}

theorem calm_reliable (i : ℕ) : Reliable (calm i) := rfl

section Exec
variable {w : World} {c : Choice} {k : Kind}

theorem exec_put_held (hc : Reliable c) {o cur : k.Obj} (hcur : Holds w.store k cur)
    (hn : (metaOf o).name = (metaOf cur).name) : ∃ hv, exec c (.put k o (metaOf cur).resourceVersion) w =
      (.ok (w.store.rev + 1), { w with store := w.store.write k o w.store.uids hv }) := by
  have hl := lookup_some hcur
  have hv : validName (metaOf o).name := hn ▸ hl.2.2.1
  refine ⟨hv, ?_⟩
  unfold Holds Store.lookup at hcur
  rw [← hn] at hcur
  obtain ⟨⟨o', r⟩, hg, he⟩ := Option.map_eq_some_iff.mp hcur
  have hr : r = (metaOf cur).resourceVersion := (Prod.mk.inj he).2
  simp only [exec, answer, show c.fault = .none from hc, Store.put, dif_pos hv, Store.putCAS, hg]
  rw [if_neg (by unfold revCreate; omega), if_neg (by unfold revAny; omega), if_pos (by omega), if_pos hr]

theorem exec_delete_held (hc : Reliable c) {cur : k.Obj} (hcur : Holds w.store k cur) :
    exec c (.deleteIfRevision k (metaOf cur).name (metaOf cur).resourceVersion) w =
      (.ok (), { w with store := w.store.remove k (metaOf cur).name }) := by
  have hl := lookup_some hcur
  unfold Holds Store.lookup at hcur
  obtain ⟨⟨o', r⟩, hg, he⟩ := Option.map_eq_some_iff.mp hcur
  have hr : r = (metaOf cur).resourceVersion := (Prod.mk.inj he).2
  simp only [exec, answer, show c.fault = .none from hc, Store.deleteIfRevision, if_pos hl.2.2.1, hg]
  rw [if_neg (by omega), if_pos hr]

theorem exec_create_absent (hc : Reliable c) {o : k.Obj} (hv : validName (metaOf o).name)
    (habs : w.store.lookup k (metaOf o).name = none) :
    exec c (.put k o revCreate) w = (.ok (w.store.rev + 1), { w with store := w.store.created w.unix k o hv }) := by
  unfold Store.lookup at habs
  have hg := Option.map_eq_none_iff.mp habs
  simp only [exec, answer, show c.fault = .none from hc, Store.put, dif_pos hv, if_pos, Store.putCreate, hg]

end Exec

theorem exec_get_ok {c : Choice} {w : World} {o : k.Obj} (h : (exec c (.get k n) w).1 = .ok (o, r)) :
    w.store.lookup k n = some (o, r) := by
  simp only [exec, Store.get] at h
  split at h
  · split at h
    · split at h
      · rename_i hl
        rw [Except.ok.inj h] at hl
        exact hl
      · cases h
    · cases h
  · cases h

theorem lookup_eq_none (h : (s.tbl k)[n]? = none) : s.lookup k n = none := by
  unfold Store.lookup
  rw [h]
  rfl

theorem lookup_of_get {o : k.Obj} (h : (s.tbl k)[n]? = some (o, r)) : s.lookup k n = some (stamp o r, r) := by
  unfold Store.lookup
  rw [h]
  rfl

section Change
variable {R : Rights} {h : Log} {w : World}

theorem change_put {o : k.Obj} {rev : Int} (hw : Within R h w (.put k o rev)) :
    Change R h w (.put k o rev) (w.store.put w.unix k o rev).2 := by
  unfold Store.put
  split
  · rename_i hv
    rcases hw with ⟨rfl, hc⟩ | ⟨hpos, he⟩
    · rw [if_pos rfl]
      unfold Store.putCreate
      split
      · exact .same _
      · exact .create k o hv (lookup_eq_none (by assumption)) hc
    · rw [if_neg (by unfold revCreate; omega), if_neg (by unfold revAny; omega), if_pos hpos]
      unfold Store.putCAS
      split
      · rename_i o' r hg
        split
        · rename_i hr
          subst hr
          exact .edit k _ o r hv (lookup_of_get hg) (he _ (lookup_of_get hg))
        · exact .same _
      · exact .same _
  · exact .same _

theorem change_delete (hw : Within R h w (.delete k n)) : Change R h w (.delete k n) (w.store.delete k n).2 := by
  unfold Store.delete
  split
  · split
    · rename_i e hg
      have hl := lookup_of_get (o := e.1) (r := e.2) hg
      exact .remove _ k n _ _ (Or.inl rfl) hl (hw _ _ hl)
    · exact .same _
  · exact .same _

theorem change_deleteIfRevision {rev : Int} (hw : Within R h w (.deleteIfRevision k n rev)) :
    Change R h w (.deleteIfRevision k n rev) (w.store.deleteIfRevision k n rev).2 := by
  unfold Store.deleteIfRevision
  split
  · split
    · exact .same _
    · split
      · rename_i o r hg
        split
        · rename_i hr
          subst hr
          have hl := lookup_of_get hg
          exact .remove _ k n _ r (Or.inr rfl) hl (hw _ hl)
        · exact .same _
      · exact .same _
  · exact .same _

theorem exec_change (c : Choice) {op : Op} (hw : Within R h w op) : Change R h w op (exec c op w).2.store := by
  have ha : ∀ {α : Type} (x : Except StoreErr α × Store), Change R h w op x.2 →
      Change R h w op (answer c w x).2.store := by
    intro α x hx
    rcases answer_store c w x with he | he <;> rw [he]
    · exact .same _
    · exact hx
  cases op with
  | put k o e => exact ha _ (change_put hw)
  | delete k n => exact ha _ (change_delete hw)
  | deleteIfRevision k n e => exact ha _ (change_deleteIfRevision hw)
  | get k n => exact .same _
  | list k => exact .same _
  | now => exact .same _
  | hexSuffix => exact .same _
  | send m => exact .same _
  | pause => exact .same _

end Change

end Klite
