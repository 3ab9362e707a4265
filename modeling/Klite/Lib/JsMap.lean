import Mathlib.Data.List.Nodup

/-!
# Maps in the order of insertion

A JavaScript `Map` iterates over its entries in the order in which their keys were first
set; setting a key again leaves it where it is.
-/

namespace Klite.Lib

structure JsMap (α : Type) where
  entries : List (String × α) := []
  nodup : (entries.map (·.1)).Nodup := by exact List.nodup_nil

namespace JsMap

variable {α : Type}

def get (m : JsMap α) (k : String) : Option α := m.entries.lookup k

def has (m : JsMap α) (k : String) : Bool := (m.get k).isSome

def keys (m : JsMap α) : List String := m.entries.map (·.1)

def values (m : JsMap α) : List α := m.entries.map (·.2)

variable {k : String}

theorem notMem_keys {m : JsMap α} (h : ¬ m.has k) : k ∉ m.keys := by
  intro hk
  obtain ⟨e, he, rfl⟩ := List.mem_map.mp hk
  have hnone : m.entries.lookup e.1 = none := Option.not_isSome_iff_eq_none.mp h
  have hne := List.lookup_eq_none_iff.mp hnone e he
  simp at hne

/-- The value of a key that is there; no key is added. -/
def replace (m : JsMap α) (k : String) (v : α) : JsMap α where
  entries := m.entries.map fun e => if e.1 = k then (k, v) else e
  nodup := by
    have hkeys : (m.entries.map fun e => if e.1 = k then (k, v) else e).map (·.1) = m.entries.map (·.1) := by
      rw [List.map_map]
      refine List.map_congr_left fun e _ => ?_
      show (if e.1 = k then (k, v) else e).1 = e.1
      split
      · exact (‹e.1 = k›).symm
      · rfl
    rw [hkeys]
    exact m.nodup

def set (m : JsMap α) (k : String) (v : α) : JsMap α :=
  if h : m.has k then m.replace k v
  else
    { entries := m.entries ++ [(k, v)]
      nodup := by
        rw [List.map_append]
        exact m.nodup.append (List.nodup_singleton k) (List.disjoint_singleton.mpr (notMem_keys h)) }

def delete (m : JsMap α) (k : String) : JsMap α where
  entries := m.entries.filter fun e => e.1 ≠ k
  nodup := m.nodup.sublist (List.filter_sublist.map _)

variable {m : JsMap α}
variable {v : α}

theorem mem_of_get (h : m.get k = some v) : (k, v) ∈ m.entries := by
  obtain ⟨l, l', hl, -⟩ := List.lookup_eq_some_iff.mp h
  rw [hl]
  exact List.mem_append_right l List.mem_cons_self

theorem get_of_mem (h : (k, v) ∈ m.entries) : m.get k = some v := by
  obtain ⟨l, hl⟩ := m
  unfold get
  dsimp only at h hl ⊢
  induction l with
  | nil => cases h
  | cons e l ih =>
    rw [List.map_cons, List.nodup_cons] at hl
    rcases List.mem_cons.mp h with rfl | h
    · rw [List.lookup_cons, beq_self_eq_true]
    · have hne : k ≠ e.1 := fun hk => hl.1 (hk ▸ List.mem_map_of_mem h)
      rw [List.lookup_cons, beq_eq_false_iff_ne.mpr hne]
      exact ih hl.2 h

theorem lookup_replace (l : List (String × α)) (k : String) (v : α) (a : String) :
    (l.map fun e => if e.1 = k then (k, v) else e).lookup a = if k = a ∧ (l.lookup k).isSome then some v else l.lookup a := by
  induction l with
  | nil => simp
  | cons e l ih =>
    obtain ⟨k', v'⟩ := e
    rw [List.map_cons]
    by_cases hk : k' = k
    · subst hk
      rw [if_pos rfl, List.lookup_cons, List.lookup_cons, List.lookup_cons, beq_self_eq_true]
      by_cases ha : k' = a
      · subst ha
        simp
      · have hne : (a == k') = false := beq_eq_false_iff_ne.mpr (Ne.symm ha)
        rw [hne, if_neg fun h => ha h.1]
        dsimp only
        rw [ih, if_neg fun h => ha h.1]
    · have hne : (k == k') = false := beq_eq_false_iff_ne.mpr (Ne.symm hk)
      rw [if_neg hk, List.lookup_cons, List.lookup_cons, List.lookup_cons, hne]
      dsimp only
      by_cases ha : a = k'
      · subst ha
        rw [beq_self_eq_true, if_neg fun h => hk h.1.symm]
      · rw [beq_eq_false_iff_ne.mpr ha]
        exact ih

theorem get_replace (k : String) (v : α) (a : String) :
    (m.replace k v).get a = if k = a ∧ m.has k then some v else m.get a := lookup_replace m.entries k v a

theorem get_set (k : String) (v : α) (a : String) : (m.set k v).get a = if k = a then some v else m.get a := by
  unfold set
  by_cases hk : m.has k
  · rw [dif_pos hk, get_replace]
    simp only [hk, and_true]
  · rw [dif_neg hk]
    have hnone : m.entries.lookup k = none := Option.not_isSome_iff_eq_none.mp hk
    unfold get
    dsimp only
    rw [List.lookup_append]
    by_cases ha : k = a
    · subst ha
      rw [hnone, if_pos rfl]
      simp
    · have hne : (a == k) = false := beq_eq_false_iff_ne.mpr (Ne.symm ha)
      rw [if_neg ha, List.lookup_cons, hne]
      simp

theorem get_delete (k a : String) : (m.delete k).get a = if k = a then none else m.get a := by
  obtain ⟨l, hl⟩ := m
  unfold delete get
  dsimp only
  clear hl
  induction l with
  | nil => simp
  | cons e l ih =>
    obtain ⟨k', v'⟩ := e
    by_cases hk : k' = k
    · subst hk
      rw [List.filter_cons_of_neg (by simp), ih, List.lookup_cons]
      by_cases ha : k' = a
      · rw [if_pos ha, if_pos ha]
      · rw [if_neg ha, if_neg ha, beq_eq_false_iff_ne.mpr (Ne.symm ha)]
    · rw [List.filter_cons_of_pos (by simpa using hk), List.lookup_cons, List.lookup_cons]
      by_cases ha : a = k'
      · subst ha
        rw [beq_self_eq_true, if_neg (Ne.symm hk)]
      · rw [beq_eq_false_iff_ne.mpr ha]
        exact ih

/-- Every entry has the property. -/
def All (P : String → α → Prop) (m : JsMap α) : Prop := ∀ e ∈ m.entries, P e.1 e.2

variable {P : String → α → Prop}

theorem All.get (h : m.All P) (hk : m.get k = some v) : P k v := h _ (mem_of_get hk)

theorem All.replace (h : m.All P) (hv : P k v) : (m.replace k v).All P := by
  intro e he
  obtain ⟨e', he', rfl⟩ := List.mem_map.mp he
  split
  · exact hv
  · exact h e' he'

theorem All.set (h : m.All P) (hv : P k v) : (m.set k v).All P := by
  unfold JsMap.set
  split
  · exact h.replace hv
  · intro e he
    rcases List.mem_append.mp he with he | he
    · exact h e he
    · obtain rfl := List.mem_singleton.mp he
      exact hv

theorem All.delete (h : m.All P) (k : String) : (m.delete k).All P := fun e he => h e (List.mem_filter.mp he).1

end JsMap

end Klite.Lib
