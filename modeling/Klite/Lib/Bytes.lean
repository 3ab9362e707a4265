import Mathlib.Data.List.Basic

/-!
# Byte strings

A Go string is any list of bytes. `strings.CutPrefix` is `List.dropPrefix?` and `strings.Cut`,
which cuts at the first separator, is `List.dropInfix?`. Hexadecimal text is encoding/hex's,
the comparison is crypto/subtle's.
-/

namespace Klite.Lib

abbrev Bytes := List UInt8

/-- The bytes of a text. -/
def bytes (text : String) : Bytes := text.toUTF8.data.toList

theorem forall_byte {P : UInt8 → Prop} (h : ∀ n : Fin 256, P (UInt8.ofNat n)) (b : UInt8) : P b := by
  have hb := h ⟨b.toNat, b.toNat_lt⟩
  simpa using hb

/-! ### Cutting -/

section Cutting
variable {α : Type} [DecidableEq α]

theorem dropPrefix_append (p s : List α) : (p ++ s).dropPrefix? p = some s :=
  List.dropPrefix?_append_of_beq s (beq_self_eq_true p)

theorem eq_of_dropPrefix {p s r : List α} (h : s.dropPrefix? p = some r) : s = p ++ r := by
  obtain ⟨p', hs, hp⟩ := List.dropPrefix?_eq_some_iff.mp h
  rw [hs, eq_of_beq hp]

theorem eq_of_dropInfix {i s l r : List α} (h : s.dropInfix? i = some (l, r)) : s = l ++ i ++ r := by
  obtain ⟨⟨i', hs, hi⟩, -⟩ := List.dropInfix?_eq_some_iff.mp h
  rw [hs, eq_of_beq hi]

/-- A separator is found where its first byte occurs first. -/
theorem dropInfix_append {c : α} {l : List α} (hl : c ∉ l) (sep r : List α) :
    (l ++ c :: sep ++ r).dropInfix? (c :: sep) = some (l, r) := by
  rw [List.dropInfix?_eq_some_iff]
  refine ⟨⟨c :: sep, rfl, beq_self_eq_true _⟩, ?_⟩
  intro l' i r' heq hi
  have hi' : i = c :: sep := eq_of_beq hi
  by_contra hlt
  have hlen : l'.length < l.length := by omega
  have hat : l[l'.length]? = some c := by
    have hget := congrArg (fun t : List α => t[l'.length]?) heq
    simpa [hi', List.getElem?_append_left hlen] using hget
  exact hl (List.mem_of_getElem? hat)

end Cutting

/-! ### Hexadecimal text -/

namespace Hex

def hextable : Bytes := bytes "0123456789abcdef"

def encodeByte (v : UInt8) : Bytes := [hextable.getD (v >>> 4).toNat 0, hextable.getD (v &&& 0x0f).toNat 0]

/-- `EncodeToString`. -/
def encode (src : Bytes) : Bytes := src.flatMap encodeByte

/-- The value of a digit of either case, and 0xff for every other byte. -/
def reverseHexTable (b : UInt8) : UInt8 :=
  if 48 ≤ b ∧ b ≤ 57 then b - 48
  else if 97 ≤ b ∧ b ≤ 102 then b - 87
  else if 65 ≤ b ∧ b ≤ 70 then b - 55
  else 0xff

inductive DecodeError where
  | invalidByte (b : UInt8)
  | length

/-- `fmt`'s %#U of a rune below 256, which is quoted if it is printable. -/
def formatRune (b : UInt8) : String :=
  let digit (n : ℕ) : Char := ("0123456789ABCDEF".toList).getD n '0'
  let quoted := if 0x20 ≤ b ∧ b < 0x7f ∨ 0xa1 ≤ b ∧ b ≠ 0xad then " '" ++ String.singleton (Char.ofNat b.toNat) ++ "'" else ""
  "U+00" ++ String.ofList [digit (b.toNat / 16), digit (b.toNat % 16)] ++ quoted

def DecodeError.text : DecodeError → String
  | .invalidByte b => "encoding/hex: invalid byte: " ++ formatRune b
  | .length => "encoding/hex: odd length hex string"

/-- `DecodeString`. A bad byte at the end of an odd text is reported before its length. -/
def decode : Bytes → Except DecodeError Bytes
  | [] => .ok []
  | [p] => if reverseHexTable p > 0x0f then .error (.invalidByte p) else .error .length
  | p :: q :: src =>
    if reverseHexTable p > 0x0f then .error (.invalidByte p)
    else if reverseHexTable q > 0x0f then .error (.invalidByte q)
    else (decode src).map fun dst => (reverseHexTable p <<< 4 ||| reverseHexTable q) :: dst

/-- 0 to 9, a to f, A to F. -/
def IsDigit (b : UInt8) : Prop := 48 ≤ b ∧ b ≤ 57 ∨ 97 ≤ b ∧ b ≤ 102 ∨ 65 ≤ b ∧ b ≤ 70

instance (b : UInt8) : Decidable (IsDigit b) := inferInstanceAs (Decidable (_ ∨ _))

theorem reverse_gt_iff (b : UInt8) : reverseHexTable b > 0x0f ↔ ¬ IsDigit b :=
  forall_byte (P := fun b => reverseHexTable b > 0x0f ↔ ¬ IsDigit b) (by decide +kernel) b

theorem decode_encodeByte (v : UInt8) (src : Bytes) :
    decode (encodeByte v ++ src) = (decode src).map fun dst => v :: dst := by
  have hhigh : ¬ reverseHexTable (hextable.getD (v >>> 4).toNat 0) > 0x0f :=
    forall_byte (P := fun v => ¬ reverseHexTable (hextable.getD (v >>> 4).toNat 0) > 0x0f) (by decide +kernel) v
  have hlow : ¬ reverseHexTable (hextable.getD (v &&& 0x0f).toNat 0) > 0x0f :=
    forall_byte (P := fun v => ¬ reverseHexTable (hextable.getD (v &&& 0x0f).toNat 0) > 0x0f) (by decide +kernel) v
  have hbyte : (reverseHexTable (hextable.getD (v >>> 4).toNat 0) <<< 4 |||
      reverseHexTable (hextable.getD (v &&& 0x0f).toNat 0)) = v :=
    forall_byte (P := fun v => (reverseHexTable (hextable.getD (v >>> 4).toNat 0) <<< 4 |||
      reverseHexTable (hextable.getD (v &&& 0x0f).toNat 0)) = v) (by decide +kernel) v
  simp only [encodeByte, List.cons_append, List.nil_append, decode, if_neg hhigh, if_neg hlow, hbyte]

theorem decode_encode (src : Bytes) : decode (encode src) = .ok src := by
  induction src with
  | nil => rfl
  | cons v src ih =>
    have hcons : encode (v :: src) = encodeByte v ++ encode src := List.flatMap_cons
    rw [hcons, decode_encodeByte, ih]
    rfl

theorem encode_length (src : Bytes) : (encode src).length = 2 * src.length := by
  induction src with
  | nil => rfl
  | cons v src ih =>
    have hcons : encode (v :: src) = encodeByte v ++ encode src := List.flatMap_cons
    have hv : (encodeByte v).length = 2 := rfl
    rw [hcons, List.length_append, List.length_cons]
    omega

theorem decode_ok_iff (src : Bytes) : (∃ dst, decode src = .ok dst) ↔ src.length % 2 = 0 ∧ ∀ b ∈ src, IsDigit b := by
  induction src using decode.induct with
  | case1 => simp [decode]
  | case2 p hp => simp [decode, hp]
  | case3 p hp => simp [decode, hp]
  | case4 p q src hp =>
    have hbad := (reverse_gt_iff p).mp hp
    simp [decode, hp, hbad]
  | case5 p q src hp hq =>
    have hbad := (reverse_gt_iff q).mp hq
    simp [decode, hp, hq, hbad]
  | case6 p q src hp hq ih =>
    have hp' : IsDigit p := not_not.mp (mt (reverse_gt_iff p).mpr hp)
    have hq' : IsDigit q := not_not.mp (mt (reverse_gt_iff q).mpr hq)
    have hlen : (p :: q :: src).length % 2 = src.length % 2 := by
      simp only [List.length_cons]
      omega
    have hmap : (∃ dst, decode (p :: q :: src) = .ok dst) ↔ ∃ dst, decode src = .ok dst := by
      simp only [decode, if_neg hp, if_neg hq]
      cases decode src with
      | error e => simp [Except.map]
      | ok dst => simp [Except.map]
    rw [hmap, ih, hlen]
    simp [hp', hq']

end Hex

/-! ### Comparison -/

/-- `ConstantTimeCompare`: every byte is looked at, whatever the ones before it were. -/
def constantTimeCompare (x y : Bytes) : ℕ :=
  if x.length ≠ y.length then 0
  else if (x.zip y).foldl (fun v e => v ||| (e.1 ^^^ e.2)) 0 = 0 then 1 else 0

theorem differences_zero_iff (l : List (UInt8 × UInt8)) (v : UInt8) :
    l.foldl (fun v e => v ||| (e.1 ^^^ e.2)) v = 0 ↔ v = 0 ∧ ∀ e ∈ l, e.1 = e.2 := by
  induction l generalizing v with
  | nil => simp
  | cons e l ih =>
    rw [List.foldl_cons, ih, UInt8.or_eq_zero_iff, UInt8.xor_eq_zero_iff]
    simp [and_assoc]

theorem zip_same_iff {x y : Bytes} (h : x.length = y.length) : (∀ e ∈ x.zip y, e.1 = e.2) ↔ x = y := by
  induction x generalizing y with
  | nil => simp [List.length_eq_zero_iff.mp h.symm]
  | cons a x ih =>
    cases y with
    | nil => simp at h
    | cons b y =>
      have hlen : x.length = y.length := by simpa using h
      simp [← ih hlen]

theorem constantTimeCompare_iff (x y : Bytes) : constantTimeCompare x y = 1 ↔ x = y := by
  by_cases h : x.length = y.length
  · have hzero := differences_zero_iff (x.zip y) 0
    rw [zip_same_iff h] at hzero
    simp [constantTimeCompare, h, hzero]
  · have hne : x ≠ y := fun he => h (congrArg List.length he)
    simp [constantTimeCompare, h, hne]

end Klite.Lib
