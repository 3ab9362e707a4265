import Mathlib.Algebra.GroupWithZero.Nat
import Mathlib.Data.List.DropRight

/-!
# A ring that overwrites its oldest cell

A fixed number of cells, the cell the next push lands in, and how many are filled. The live
cells, walked from the oldest on, are the last pushes, as many as there are cells.
-/

namespace Klite.Lib

structure Ring (α : Type) (cap : ℕ) where
  buf : Vector α cap
  next : Fin cap
  size : ℕ
  size_le : size ≤ cap

namespace Ring
variable {α : Type} {cap : ℕ}

def empty [NeZero cap] (a : α) : Ring α cap where
  buf := Vector.replicate cap a
  next := 0
  size := 0
  size_le := Nat.zero_le cap

def push (r : Ring α cap) (a : α) : Ring α cap where
  buf := r.buf.set r.next a
  next := ⟨(r.next + 1) % cap, Nat.mod_lt _ r.next.pos⟩
  size := min (r.size + 1) cap
  size_le := Nat.min_le_right _ _

/-- The cell of the `i`-th live entry, counted from the oldest. -/
def slot (r : Ring α cap) (i : ℕ) : Fin cap := ⟨(r.next + cap - r.size + i) % cap, Nat.mod_lt _ r.next.pos⟩

def cell (r : Ring α cap) (i : ℕ) : α := r.buf[(r.slot i : ℕ)]

def toList (r : Ring α cap) : List α := (List.range r.size).map r.cell

theorem getElem_toList (r : Ring α cap) {i : ℕ} (h : i < r.toList.length) : r.toList[i] = r.cell i := by
  simp [toList]

theorem length_toList (r : Ring α cap) : r.toList.length = r.size := by
  simp [toList]

theorem mod_wrap {x m : ℕ} (h : x < m + m) : x % m = if x < m then x else x - m := by
  split
  · next hx => exact Nat.mod_eq_of_lt hx
  · next hx => rw [Nat.mod_eq_sub_mod (by omega), Nat.mod_eq_of_lt (by omega)]

theorem slot_val (r : Ring α cap) {i : ℕ} (hi : i < r.size) :
    (r.slot i : ℕ) = if r.next + cap - r.size + i < cap then r.next + cap - r.size + i else r.next + cap - r.size + i - cap := by
  have hn := r.next.isLt
  have hs := r.size_le
  exact mod_wrap (by omega)

theorem next_push (r : Ring α cap) (a : α) :
    ((r.push a).next : ℕ) = if (r.next : ℕ) + 1 < cap then (r.next : ℕ) + 1 else 0 := by
  have hn := r.next.isLt
  show ((r.next : ℕ) + 1) % cap = _
  split
  · next h => exact Nat.mod_eq_of_lt h
  · next h => rw [show (r.next : ℕ) + 1 = cap by omega, Nat.mod_self]

theorem cell_push (r : Ring α cap) (a : α) (i : ℕ) :
    (r.push a).cell i = if r.next = (r.push a).slot i then a else r.buf[((r.push a).slot i : ℕ)] := by
  show (r.buf.set r.next a)[((r.push a).slot i : ℕ)] = _
  rw [Vector.getElem_set]
  simp only [Fin.ext_iff]

theorem cell_push_last (r : Ring α cap) (a : α) : (r.push a).cell ((r.push a).size - 1) = a := by
  have hn := r.next.isLt
  have hs := r.size_le
  have hsize : (r.push a).size = min (r.size + 1) cap := rfl
  rw [cell_push, if_pos]
  apply Fin.ext
  rw [slot_val _ (by omega), next_push]
  split <;> split <;> omega

theorem cell_push_of_lt (r : Ring α cap) (a : α) {i : ℕ} (hi : i + 1 < (r.push a).size) :
    (r.push a).cell i = r.cell (i + (r.size + 1 - cap)) := by
  have hn := r.next.isLt
  have hs := r.size_le
  have hsize : (r.push a).size = min (r.size + 1) cap := rfl
  have hslot : (r.push a).slot i = r.slot (i + (r.size + 1 - cap)) := by
    apply Fin.ext
    rw [slot_val _ (by omega), slot_val _ (by omega), next_push]
    split <;> split <;> split <;> omega
  rw [cell_push, if_neg]
  · exact congrArg (fun j : Fin cap => r.buf[(j : ℕ)]) hslot
  · intro h
    have hv := congrArg Fin.val h
    rw [slot_val _ (by omega), next_push] at hv
    split at hv <;> split at hv <;> omega

theorem toList_push (r : Ring α cap) (a : α) : (r.push a).toList = (r.toList ++ [a]).rtake cap := by
  have hs := r.size_le
  have hpos := r.next.pos
  have hsize : (r.push a).size = min (r.size + 1) cap := rfl
  have hlen : (r.toList ++ [a]).length = r.size + 1 := by
    rw [List.length_append, length_toList]
    rfl
  unfold List.rtake
  rw [hlen]
  apply List.ext_getElem
  · rw [length_toList, List.length_drop, hlen]
    omega
  · intro i h1 h2
    rw [getElem_toList, List.getElem_drop, List.getElem_append]
    rw [length_toList] at h1
    split
    · next h =>
      rw [length_toList] at h
      rw [cell_push_of_lt r a (by omega), getElem_toList, Nat.add_comm]
    · next h =>
      rw [length_toList] at h
      obtain rfl : i = (r.push a).size - 1 := by omega
      rw [cell_push_last, List.getElem_singleton]

theorem rtake_rtake_concat (l : List α) (a : α) (n : ℕ) : (l.rtake n ++ [a]).rtake n = (l ++ [a]).rtake n := by
  cases n with
  | zero => simp
  | succ n =>
    rw [List.rtake_concat_succ, List.rtake_concat_succ]
    simp only [List.rtake, List.length_drop, List.drop_drop]
    congr 2
    omega

/-- After any pushes the ring holds the last of them. -/
theorem toList_foldl_push (l : List α) (r : Ring α cap) (before : List α) (h : r.toList = before.rtake cap) :
    (l.foldl push r).toList = (before ++ l).rtake cap := by
  induction l generalizing r before with
  | nil => simpa using h
  | cons a l ih =>
    have hr : (r.push a).toList = (before ++ [a]).rtake cap := by rw [toList_push, h, rtake_rtake_concat]
    have hl := ih (r.push a) (before ++ [a]) hr
    rwa [List.append_assoc] at hl

end Ring

end Klite.Lib
