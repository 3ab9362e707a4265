import Mathlib.Data.List.Basic
import Mathlib.Data.String.Basic

/-!
# IP addresses (net/netip)

`ParseAddr` of the standard library, on the characters of the string. Only whether
it succeeds and which address it names is modelled, not its error texts. An IPv4
address has one text, and that text parses back to it.
-/

namespace Klite.Netip

-- An IPv4 address is its 32 bits, an IPv6 address its 128 bits and its zone.
structure Addr where
  is6 : Bool
  bits : Nat
  zone : String := ""
  deriving DecidableEq

def Addr.bitLen (a : Addr) : Nat := if a.is6 then 128 else 32

-- The state of the scan is the octet read so far, its length, and the finished octets.
def ipv4Loop : List Char → Nat → Nat → List Nat → Option (List Nat)
  | [], val, _, acc => if acc.length < 3 then none else some (acc ++ [val])
  | c :: cs, val, digLen, acc =>
    if c.isDigit then
      if digLen = 1 ∧ val = 0 then none
      else if val * 10 + (c.toNat - 48) > 255 then none
      else ipv4Loop cs (val * 10 + (c.toNat - 48)) (digLen + 1) acc
    else if c = '.' then
      if digLen = 0 ∨ cs = [] then none
      else if acc.length = 3 then none
      else ipv4Loop cs 0 0 (acc ++ [val])
    else none

def parseIPv4Fields (s : List Char) : Option (List Nat) := ipv4Loop s 0 0 []

def ofFields (base : Nat) (fs : List Nat) : Nat := fs.foldl (fun n f => n * base + f) 0

def hexVal (c : Char) : Option Nat :=
  if c.isDigit then some (c.toNat - 48)
  else if 'a' ≤ c ∧ c ≤ 'f' then some (c.toNat - 97 + 10)
  else if 'A' ≤ c ∧ c ≤ 'F' then some (c.toNat - 65 + 10)
  else none

-- One group of at most four hex digits: its length, its value and what follows it.
def hexGroup : List Char → Nat → Nat → Option (Nat × Nat × List Char)
  | [], off, acc => some (off, acc, [])
  | c :: cs, off, acc =>
    match hexVal c with
    | none => some (off, acc, c :: cs)
    | some d => if off > 3 then none else hexGroup cs (off + 1) (acc * 16 + d)

-- The loop stops after eight groups; `e` is where the `::` stood, counted in groups.
def ipv6Loop : Nat → List Char → List Nat → Option Nat → Option (List Char × List Nat × Option Nat)
  | 0, s, g, e => some (s, g, e)
  | room + 1, s, g, e =>
    match hexGroup s 0 0 with
    | none => none
    | some (off, acc, rest) =>
      if off = 0 then none
      else match rest with
        | [] => some ([], g ++ [acc], e)
        | '.' :: _ =>
          if (e = none ∧ g.length ≠ 6) ∨ g.length > 6 then none
          else match parseIPv4Fields s with
            | some [a, b, c, d] => some ([], g ++ [a * 256 + b, c * 256 + d], e)
            | _ => none
        | [':'] => none
        | ':' :: ':' :: rest' =>
          if e.isSome then none
          else if rest' = [] then some ([], g ++ [acc], some (g.length + 1))
          else ipv6Loop room rest' (g ++ [acc]) (some (g.length + 1))
        | ':' :: rest' => ipv6Loop room rest' (g ++ [acc]) e
        | _ => none

def expand (s : List Char) (g : List Nat) (e : Option Nat) : Option (List Nat) :=
  if s ≠ [] then none
  else if g.length < 8 then
    e.map fun p => g.take p ++ List.replicate (8 - g.length) 0 ++ g.drop p
  else if e.isSome then none
  else some g

def parseGroups (s : List Char) : Option (List Nat) :=
  match s with
  | [':', ':'] => some (List.replicate 8 0)
  | ':' :: ':' :: rest => (ipv6Loop 8 rest [] (some 0)).bind fun x => expand x.1 x.2.1 x.2.2
  | _ => (ipv6Loop 8 s [] none).bind fun x => expand x.1 x.2.1 x.2.2

def parseIPv6 (s : List Char) : Option Addr :=
  let hasZone := s.contains '%'
  let zone := String.ofList ((s.dropWhile (· ≠ '%')).drop 1)
  if hasZone ∧ zone = "" then none
  else (parseGroups (s.takeWhile (· ≠ '%'))).map fun g => ⟨true, ofFields 65536 g, zone⟩

def parseIPv4 (s : List Char) : Option Addr :=
  (parseIPv4Fields s).map fun fs => ⟨false, ofFields 256 fs, ""⟩

def parseAddr (s : String) : Option Addr :=
  match s.toList.find? fun c => c = '.' ∨ c = ':' ∨ c = '%' with
  | some '.' => parseIPv4 s.toList
  | some ':' => parseIPv6 s.toList
  | _ => none

-- The last 32 bits of ::ffff:0:0/96.
def Addr.unmap (a : Addr) : Addr :=
  if a.is6 ∧ a.bits / 4294967296 = 65535 then ⟨false, a.bits % 4294967296, ""⟩ else a

def Addr.isLoopback (a : Addr) : Bool :=
  let u := a.unmap
  if u.is6 then u.bits = 1 else u.bits / 16777216 = 127

def Addr.isUnspecified (a : Addr) : Bool := a = ⟨false, 0, ""⟩ ∨ a = ⟨true, 0, ""⟩

structure Prefix where
  addr : Addr
  bits : Nat

-- An address with a zone is in no prefix, and a mapped IPv4 address counts as IPv6.
def Prefix.contains (p : Prefix) (ip : Addr) : Bool :=
  ip.zone = "" && ip.bitLen = p.addr.bitLen &&
    ip.bits / 2 ^ (ip.bitLen - p.bits) = p.addr.bits / 2 ^ (ip.bitLen - p.bits)

theorem contains_is4 {p : Prefix} {a : Addr} (hp : p.addr.is6 = false) (h : p.contains a) : a.is6 = false := by
  simp only [Prefix.contains, Bool.and_eq_true, decide_eq_true_eq] at h
  have hlen : a.bitLen = p.addr.bitLen := h.1.2
  unfold Addr.bitLen at hlen
  rw [hp] at hlen
  cases h6 : a.is6
  · rfl
  · rw [h6] at hlen
    cases hlen

-- The address after the last one of its family is not modelled.
def Addr.next (a : Addr) : Addr := { a with bits := a.bits + 1 }

def Addr.octets (a : Addr) : List Nat :=
  [a.bits / 16777216 % 256, a.bits / 65536 % 256, a.bits / 256 % 256, a.bits % 256]

def Addr.string (a : Addr) : String := String.intercalate "." (a.octets.map toString)

example : parseAddr "10.44.0.11" = some ⟨false, 170655755, ""⟩ := by decide
example : parseAddr "fe80::1%eth0" = some ⟨true, 338288524927261089654018896841347694593, "eth0"⟩ := by decide
example : parseAddr "10.044.0.1" = none := by decide

section Text

def octetText (n : Nat) : List Char :=
  if n < 10 then [Nat.digitChar n]
  else if n < 100 then [Nat.digitChar (n / 10), Nat.digitChar (n % 10)]
  else [Nat.digitChar (n / 100), Nat.digitChar (n / 10 % 10), Nat.digitChar (n % 10)]

theorem toString_octet {n : Nat} (h : n < 256) : (toString n).toList = octetText n := by
  show n.repr.toList = octetText n
  rw [Nat.toList_repr, Nat.toDigits_eq_if (by decide)]
  unfold octetText
  split
  · rfl
  · rw [Nat.toDigits_eq_if (by decide)]
    split
    · rw [if_pos (by omega)]
      rfl
    · rw [if_neg (by omega), Nat.toDigits_of_lt_base (by omega), Nat.div_div_eq_div_mul]
      rfl

theorem digitChar_digit {d : Nat} (h : d < 10) : (Nat.digitChar d).isDigit ∧ (Nat.digitChar d).toNat - 48 = d := by
  have hall : ∀ d : Fin 10, (Nat.digitChar d.val).isDigit ∧ (Nat.digitChar d.val).toNat - 48 = d.val := by decide +kernel
  exact hall ⟨d, h⟩

theorem ipv4Loop_digit {d : Nat} (h : d < 10) (cs : List Char) (val len : Nat) (acc : List Nat)
    (hz : ¬ (len = 1 ∧ val = 0)) (hv : val * 10 + d ≤ 255) :
    ipv4Loop (Nat.digitChar d :: cs) val len acc = ipv4Loop cs (val * 10 + d) (len + 1) acc := by
  obtain ⟨hd, hn⟩ := digitChar_digit h
  have hle : ¬ val * 10 + d > 255 := by omega
  rw [ipv4Loop, if_pos hd, if_neg hz, hn, if_neg hle]

theorem ipv4Loop_octet {n : Nat} (h : n < 256) (cs : List Char) (acc : List Nat) :
    ipv4Loop (octetText n ++ cs) 0 0 acc = ipv4Loop cs n (octetText n).length acc := by
  unfold octetText
  split
  · rw [List.singleton_append, ipv4Loop_digit (by omega) _ _ _ _ (by omega) (by omega)]
    simp
  · split
    · simp only [List.cons_append, List.nil_append]
      rw [ipv4Loop_digit (by omega) _ _ _ _ (by omega) (by omega),
        ipv4Loop_digit (by omega) _ _ _ _ (by omega) (by omega)]
      congr 1
      omega
    · simp only [List.cons_append, List.nil_append]
      rw [ipv4Loop_digit (by omega) _ _ _ _ (by omega) (by omega),
        ipv4Loop_digit (by omega) _ _ _ _ (by omega) (by omega),
        ipv4Loop_digit (by omega) _ _ _ _ (by omega) (by omega)]
      congr 1
      omega

theorem octetText_ne_nil (n : Nat) : octetText n ≠ [] := by
  unfold octetText
  split
  · simp
  · split <;> simp

theorem ipv4Loop_dot {n len : Nat} (hlen : 0 < len) {cs : List Char} (hcs : cs ≠ []) {acc : List Nat} (hacc : acc.length < 3) :
    ipv4Loop ('.' :: cs) n len acc = ipv4Loop cs 0 0 (acc ++ [n]) := by
  have hdot : ('.').isDigit = false := by decide
  have h₁ : ¬ (len = 0 ∨ cs = []) := by
    rintro (h | h)
    · omega
    · exact hcs h
  have h₂ : ¬ acc.length = 3 := by omega
  rw [ipv4Loop, hdot, if_neg Bool.false_ne_true, if_pos rfl, if_neg h₁, if_neg h₂]

def fieldsText (a b c d : Nat) : List Char :=
  octetText a ++ '.' :: (octetText b ++ '.' :: (octetText c ++ '.' :: octetText d))

theorem parseIPv4Fields_text {a b c d : Nat} (ha : a < 256) (hb : b < 256) (hc : c < 256) (hd : d < 256) :
    parseIPv4Fields (fieldsText a b c d) = some [a, b, c, d] := by
  have hpos : ∀ n, 0 < (octetText n).length := fun n => List.length_pos_iff.mpr (octetText_ne_nil n)
  have hne : ∀ n cs, octetText n ++ cs ≠ [] := fun n cs => by simp [octetText_ne_nil n]
  have hlast := ipv4Loop_octet hd [] [a, b, c]
  rw [List.append_nil] at hlast
  unfold parseIPv4Fields fieldsText
  rw [ipv4Loop_octet ha, ipv4Loop_dot (hpos a) (hne _ _) (by simp), ipv4Loop_octet hb,
    ipv4Loop_dot (hpos b) (hne _ _) (by simp), ipv4Loop_octet hc,
    ipv4Loop_dot (hpos c) (octetText_ne_nil d) (by simp)]
  exact hlast

theorem octetText_digits {n : Nat} (h : n < 256) : ∀ c ∈ octetText n, c.isDigit := by
  have hdigit : ∀ d, d < 10 → (Nat.digitChar d).isDigit := fun d hd => (digitChar_digit hd).1
  intro c hc
  unfold octetText at hc
  split at hc
  · rw [List.mem_singleton.mp hc]
    exact hdigit n (by omega)
  · split at hc
    · simp only [List.mem_cons, List.not_mem_nil, or_false] at hc
      rcases hc with rfl | rfl <;> exact hdigit _ (by omega)
    · simp only [List.mem_cons, List.not_mem_nil, or_false] at hc
      rcases hc with rfl | rfl | rfl <;> exact hdigit _ (by omega)

theorem octetText_plain (n : Nat) (h : n < 256) : ∀ c ∈ octetText n, ¬ (c = '.' ∨ c = ':' ∨ c = '%') := by
  intro c hc hsep
  have hd := octetText_digits h c hc
  rcases hsep with rfl | rfl | rfl <;> cases hd

/-- The text of an IPv4 address names that address. -/
theorem parseAddr_string {bits : Nat} (h : bits < 4294967296) :
    parseAddr (Addr.string ⟨false, bits, ""⟩) = some ⟨false, bits, ""⟩ := by
  have htext : (Addr.string ⟨false, bits, ""⟩).toList =
      fieldsText (bits / 16777216 % 256) (bits / 65536 % 256) (bits / 256 % 256) (bits % 256) := by
    unfold Addr.string Addr.octets fieldsText
    simp only [String.toList_intercalate, List.map_cons, List.map_nil]
    rw [toString_octet (by omega), toString_octet (by omega), toString_octet (by omega), toString_octet (by omega)]
    simp [List.intercalate]
  have hfind : (Addr.string ⟨false, bits, ""⟩).toList.find? (fun c => c = '.' ∨ c = ':' ∨ c = '%') = some '.' := by
    rw [htext]
    unfold fieldsText
    rw [List.find?_append]
    have hnone : (octetText (bits / 16777216 % 256)).find? (fun c => c = '.' ∨ c = ':' ∨ c = '%') = none := by
      apply List.find?_eq_none.mpr
      intro c hc
      simpa using octetText_plain _ (by omega) c hc
    rw [hnone]
    rfl
  unfold parseAddr
  rw [hfind]
  show parseIPv4 _ = _
  unfold parseIPv4
  rw [htext, parseIPv4Fields_text (by omega) (by omega) (by omega) (by omega)]
  simp only [Option.map_some, ofFields, List.foldl_cons, List.foldl_nil, Option.some.injEq, Addr.mk.injEq, true_and, and_true]
  omega

theorem digit_of_isDigit {c : Char} (h : c.isDigit) : c.toNat - 48 < 10 ∧ c = Nat.digitChar (c.toNat - 48) := by
  have hb : 48 ≤ c.toNat ∧ c.toNat ≤ 57 := by
    simp only [Char.isDigit, Bool.and_eq_true, decide_eq_true_eq] at h
    exact ⟨h.1, h.2⟩
  have hall : ∀ d : Fin 10, (Nat.digitChar d.val).toNat = 48 + d.val := by decide
  refine ⟨by omega, ?_⟩
  have hd := hall ⟨c.toNat - 48, by omega⟩
  apply Char.toNat_inj.mp
  simp only at hd
  omega

theorem octetText_push {v d : Nat} (hd : d < 10) (hv : v ≠ 0) (hle : v * 10 + d ≤ 255) :
    octetText (v * 10 + d) = octetText v ++ [Nat.digitChar d] := by
  have hlast : (v * 10 + d) % 10 = d := by omega
  have hrest : (v * 10 + d) / 10 = v := by omega
  unfold octetText
  rw [if_neg (by omega), hlast, hrest]
  by_cases hv10 : v < 10
  · rw [if_pos (by omega), if_pos hv10]
    rfl
  · have hfirst : (v * 10 + d) / 100 = v / 10 := by omega
    rw [if_neg (by omega), if_neg hv10, if_pos (by omega), hfirst]
    rfl

def pending (val len : Nat) : List Char := if len = 0 then [] else octetText val

def joined (fs : List Nat) : List Char := ['.'].intercalate (fs.map octetText)

def PendingOk (val len : Nat) : Prop := if len = 0 then val = 0 else len = (octetText val).length

theorem pending_push {val len : Nat} {c : Char} (hok : PendingOk val len) (hdigit : c.isDigit)
    (hzero : ¬ (len = 1 ∧ val = 0)) (hle : val * 10 + (c.toNat - 48) ≤ 255) :
    pending (val * 10 + (c.toNat - 48)) (len + 1) = pending val len ++ [c] ∧
      PendingOk (val * 10 + (c.toNat - 48)) (len + 1) := by
  obtain ⟨hd, hc⟩ := digit_of_isDigit hdigit
  unfold pending PendingOk at *
  rw [if_neg (Nat.succ_ne_zero len), if_neg (Nat.succ_ne_zero len)]
  by_cases hl : len = 0
  · rw [if_pos hl] at hok
    subst hok
    have hone : octetText (0 * 10 + (c.toNat - 48)) = [c] := by
      rw [Nat.zero_mul, Nat.zero_add]
      unfold octetText
      rw [if_pos hd, ← hc]
    rw [if_pos hl, hone, hl]
    exact ⟨rfl, rfl⟩
  · rw [if_neg hl] at hok ⊢
    have hv : val ≠ 0 := by
      rintro rfl
      exact hzero ⟨by rw [hok]; rfl, rfl⟩
    rw [octetText_push hd hv hle, ← hc, List.length_append, ← hok]
    exact ⟨rfl, rfl⟩

theorem ipv4Loop_text (cs : List Char) (val len : Nat) (acc fs : List Nat) (h : ipv4Loop cs val len acc = some fs)
    (hok : PendingOk val len) (hval : val ≤ 255) (hend : len = 0 → cs = [] → acc.length < 3) (hacc : acc.length ≤ 3) :
    ∃ gs, fs = acc ++ gs ∧ gs ≠ [] ∧ fs.length = 4 ∧ (∀ g ∈ gs, g ≤ 255) ∧ pending val len ++ cs = joined gs := by
  induction cs generalizing val len acc with
  | nil =>
    rw [ipv4Loop] at h
    split at h
    · cases h
    · rename_i hthree
      cases h
      have hpos : len ≠ 0 := fun he => hthree (hend he rfl)
      refine ⟨[val], rfl, by simp, by simp; omega, by simpa using hval, ?_⟩
      simp [pending, hpos, joined, List.intercalate]
  | cons c cs ih =>
    rw [ipv4Loop] at h
    split at h
    · rename_i hdigit
      split at h
      · cases h
      · rename_i hzero
        split at h
        · cases h
        · rename_i hbig
          obtain ⟨hpush, hok'⟩ := pending_push hok hdigit hzero (by omega)
          obtain ⟨gs, hfs, hne, hfour, hall, htext⟩ := ih _ _ _ h hok' (by omega) (by omega) hacc
          refine ⟨gs, hfs, hne, hfour, hall, ?_⟩
          rw [← htext, hpush, List.append_assoc]
          rfl
    · split at h
      · rename_i hdot
        split at h
        · cases h
        · rename_i hsep
          split at h
          · cases h
          · rename_i hthree
            have hl : len ≠ 0 := fun he => hsep (Or.inl he)
            have hcs : cs ≠ [] := fun he => hsep (Or.inr he)
            obtain ⟨gs, hfs, hne, hfour, hall, htext⟩ := ih 0 0 (acc ++ [val]) h rfl (by omega)
              (fun _ he => absurd he hcs) (by simp; omega)
            refine ⟨val :: gs, by rw [hfs]; simp, by simp, hfour, ?_, ?_⟩
            · intro g hg
              rcases List.mem_cons.mp hg with rfl | hg
              · exact hval
              · exact hall g hg
            · obtain ⟨g, gs', rfl⟩ := List.exists_cons_of_ne_nil hne
              have hrest : cs = joined (g :: gs') := htext
              rw [pending, if_neg hl, hdot, hrest]
              simp [joined, List.intercalate]
      · cases h

/-- An IPv4 address has one text. -/
theorem parseAddr_text {s : String} {a : Addr} (h : parseAddr s = some a) (h4 : a.is6 = false) : s = a.string := by
  have hv4 : parseIPv4 s.toList = some a := by
    unfold parseAddr at h
    split at h
    · exact h
    · unfold parseIPv6 at h
      dsimp only at h
      split at h
      · cases h
      · obtain ⟨g, -, rfl⟩ := Option.map_eq_some_iff.mp h
        cases h4
    · cases h
  obtain ⟨fs, hfs, rfl⟩ := Option.map_eq_some_iff.mp hv4
  obtain ⟨gs, hgs, -, hfour, hall, htext⟩ := ipv4Loop_text s.toList 0 0 [] fs hfs rfl (by omega) (by simp) (by simp)
  rw [List.nil_append] at hgs
  subst hgs
  match fs, hfour with
  | [a, b, c, d], _ =>
    have ha := hall a (by simp)
    have hb := hall b (by simp)
    have hc := hall c (by simp)
    have hd := hall d (by simp)
    have hbits : ofFields 256 [a, b, c, d] = a * 16777216 + b * 65536 + c * 256 + d := by
      simp only [ofFields, List.foldl_cons, List.foldl_nil]
      omega
    have hoctets : Addr.octets ⟨false, ofFields 256 [a, b, c, d], ""⟩ = [a, b, c, d] := by
      rw [hbits]
      simp only [Addr.octets, List.cons.injEq, and_true]
      omega
    apply String.toList_inj.mp
    rw [show s.toList = joined [a, b, c, d] from htext]
    unfold Addr.string
    rw [hoctets, String.toList_intercalate]
    simp only [List.map_cons, List.map_nil]
    rw [toString_octet (by omega), toString_octet (by omega), toString_octet (by omega), toString_octet (by omega)]
    rfl

end Text

end Klite.Netip
