import Mathlib.Algebra.Group.Int.Defs
import Mathlib.Data.List.Basic
import Mathlib.Data.List.Infix
import Mathlib.Data.String.Basic

/-!
# Go's strings functions, as far as the code uses them

A number's decimal text tells the number.
-/

namespace Klite

-- strings.HasPrefix
def hasPrefix (s p : String) : Bool := p.toList.isPrefixOf s.toList

-- strings.CutPrefix
def cutPrefix (s p : String) : Option String :=
  if hasPrefix s p then some (String.ofList (s.toList.drop p.length)) else none

/- `strings.ToLower`. Outside ASCII only the Kelvin sign and the dotted capital I have an
ASCII letter as their lower case; what becomes of the others nothing here accepts. -/
def lowerChar (c : Char) : Char :=
  if c = Char.ofNat 0x212A then 'k' else if c = Char.ofNat 0x130 then 'i' else c.toLower

def toLower (s : String) : String := String.ofList (s.toList.map lowerChar)

-- strings.Contains
def containsText (s p : String) : Bool := s.toList.tails.any p.toList.isPrefixOf

theorem containsText_iff {s p : String} : containsText s p ↔ p.toList <:+: s.toList := by
  unfold containsText
  rw [List.any_eq_true, List.infix_iff_prefix_suffix]
  simp only [List.mem_tails, List.isPrefixOf_iff_prefix, and_comm]

def parseDigits (ds : List Char) : Option ℕ :=
  if ds = [] ∨ !ds.all Char.isDigit then none else some (Nat.ofDigitChars 10 ds 0)

/- strconv.ParseInt(s, 10, 64), with any error as `none`. -/
def parseInt (s : String) : Option Int :=
  match s.toList with
  | '-' :: ds => (parseDigits ds).bind fun n => if n ≤ 2 ^ 63 then some (-(n : Int)) else none
  | '+' :: ds => (parseDigits ds).bind fun n => if n < 2 ^ 63 then some (n : Int) else none
  | ds => (parseDigits ds).bind fun n => if n < 2 ^ 63 then some (n : Int) else none

/-! ### Numbers -/

theorem toString_index {i j : ℕ} (h : toString i = toString j) : i = j := by
  have hval : ∀ n : ℕ, Nat.ofDigitChars 10 (toString n).toList 0 = n := by
    intro n
    rw [show (toString n).toList = Nat.toDigits 10 n from Nat.toList_repr, Nat.ofDigitChars_ten_toDigits]
  rw [← hval i, ← hval j, h]

theorem repr_ne_minus (n m : ℕ) : n.repr ≠ "-" ++ m.repr := by
  intro h
  have hin : '-' ∈ n.repr.toList := by
    rw [h, String.toList_append]
    exact List.mem_append_left _ (by decide)
  rw [Nat.toList_repr] at hin
  exact absurd (Nat.isDigit_of_mem_toDigits (by decide) (by decide) hin) (by decide)

theorem toString_int_inj {a b : Int} (h : toString a = toString b) : a = b := by
  have h' : a.repr = b.repr := h
  rw [Int.repr_eq_if, Int.repr_eq_if] at h'
  split at h' <;> split at h'
  · have hn := toString_index h'
    omega
  · exact absurd h' (repr_ne_minus _ _)
  · exact absurd h'.symm (repr_ne_minus _ _)
  · have hn := toString_index ((String.append_right_inj _).mp h')
    omega

theorem notMem_int {c : Char} (hd : c.isDigit = false) (hm : c ≠ '-') (p : Int) : c ∉ (toString p).toList := by
  have hnat : ∀ n : ℕ, c ∉ n.repr.toList := by
    intro n hn
    rw [Nat.toList_repr] at hn
    have hdigit := Nat.isDigit_of_mem_toDigits (by decide) (by decide) hn
    rw [hd] at hdigit
    cases hdigit
  show c ∉ p.repr.toList
  rw [Int.repr_eq_if]
  split
  · exact hnat _
  · intro hin
    rw [String.toList_append, List.mem_append] at hin
    rcases hin with hin | hin
    · exact hm (by simpa using hin)
    · exact hnat _ hin

theorem digit_toDigits {n : ℕ} {c : Char} (h : c ∈ Nat.toDigits 10 n) : c.isDigit :=
  Nat.isDigit_of_mem_toDigits (by decide) (by decide) h

theorem parseDigits_toDigits (n : ℕ) : parseDigits (Nat.toDigits 10 n) = some n := by
  unfold parseDigits
  rw [if_neg, Nat.ofDigitChars_ten_toDigits]
  rintro (hnil | hall)
  · exact Nat.toDigits_ne_nil hnil
  · rw [List.all_eq_true.mpr fun c hc => digit_toDigits hc] at hall
    cases hall

theorem parseInt_toString {n : ℕ} (h : n < 2 ^ 63) : parseInt (toString n) = some (n : Int) := by
  have htext : (toString n).toList = Nat.toDigits 10 n := Nat.toList_repr
  unfold parseInt
  rw [htext]
  split
  · next ds hds => exact absurd (digit_toDigits (n := n) (by rw [hds]; exact List.mem_cons_self)) (by decide)
  · next ds hds => exact absurd (digit_toDigits (n := n) (by rw [hds]; exact List.mem_cons_self)) (by decide)
  · rw [parseDigits_toDigits, Option.bind_some, if_pos h]

theorem parseInt_int {n : Int} (hlo : -2 ^ 63 ≤ n) (hhi : n < 2 ^ 63) : parseInt (toString n) = some n := by
  have hrepr : toString n = n.repr := rfl
  rw [hrepr, Int.repr_eq_if]
  split
  · next h =>
    have hnat : n = (n.toNat : Int) := by omega
    rw [show n.toNat.repr = toString n.toNat from rfl, parseInt_toString (by omega), ← hnat]
  · next h =>
    have htext : ("-" ++ (-n).toNat.repr).toList = '-' :: Nat.toDigits 10 (-n).toNat := by
      rw [String.toList_append, Nat.toList_repr]
      rfl
    unfold parseInt
    rw [htext]
    show ((parseDigits (Nat.toDigits 10 (-n).toNat)).bind fun n => if n ≤ 2 ^ 63 then some (-(n : Int)) else none) = some n
    rw [parseDigits_toDigits, Option.bind_some, if_pos (by omega)]
    exact congrArg some (by omega)

/-! ### Splitting at a separator -/

theorem split_first {c : Char} {l l' m m' : List Char} (hl : c ∉ l) (hl' : c ∉ l') (h : l ++ c :: m = l' ++ c :: m') :
    l = l' ∧ m = m' := by
  induction l generalizing l' with
  | nil =>
    cases l' with
    | nil => exact ⟨rfl, (List.cons.inj h).2⟩
    | cons d l' => exact absurd (List.mem_cons.mpr (.inl (List.cons.inj h).1)) hl'
  | cons d l ih =>
    cases l' with
    | nil => exact absurd (List.mem_cons.mpr (.inl (List.cons.inj h).1.symm)) hl
    | cons d' l' =>
      obtain ⟨rfl, htail⟩ := List.cons.inj h
      obtain ⟨rfl, rfl⟩ := ih (fun hc => hl (List.mem_cons_of_mem _ hc)) (fun hc => hl' (List.mem_cons_of_mem _ hc)) htail
      exact ⟨rfl, rfl⟩

theorem split_last {c : Char} {l l' m m' : List Char} (hm : c ∉ m) (hm' : c ∉ m') (h : l ++ c :: m = l' ++ c :: m') :
    l = l' ∧ m = m' := by
  have hrev := congrArg List.reverse h
  simp only [List.reverse_append, List.reverse_cons, List.append_assoc, List.singleton_append] at hrev
  obtain ⟨hmm, hll⟩ := split_first (by rwa [List.mem_reverse]) (by rwa [List.mem_reverse]) hrev
  exact ⟨List.reverse_inj.mp hll, List.reverse_inj.mp hmm⟩

end Klite
