import Klite.Lib.Table
import Klite.Net.Desired
import Klite.Net.Netip
import Klite.Object.Validate

/-!
# The configuration of klite-net (internal/netd/config.go)

The daemon checks a pushed `NetDesired` by itself, with a label grammar and a pool of its
own. The log and the handlers that read the configuration are left out.
-/

namespace Klite.Netd
open Lib

-- 10.44.64.0/18
def vipPool : Netip.Prefix := ⟨⟨false, 170672128, ""⟩, 18⟩

def labelChar (c : Char) : Bool := ('a' ≤ c && c ≤ 'z') || ('0' ≤ c && c ≤ '9')

-- ^[a-z0-9]([a-z0-9-]{0,61}[a-z0-9])?$
def serviceLabel (name : String) : Bool :=
  match name.toList with
  | [] => false
  | [c] => labelChar c
  | c :: cs => labelChar c && cs.dropLast.all (fun d => labelChar d || d = '-') &&
      cs.dropLast.length ≤ 61 && cs.getLast?.any labelChar

structure NetProbe where
  inst : String
  ip : String
  port : Int
  addr : String
  deriving DecidableEq

structure NetConfig where
  serial : ℕ
  vips : Std.ExtTreeMap String Netip.Addr
  vipList : List Netip.Addr
  targets : List NetProbe

-- An IPv6 address is printed here as it was written.
def outsidePool (svc : ServiceVIP) (vip : Netip.Addr) : String :=
  "service " ++ svc.service ++ ": vip " ++ (if vip.is6 then svc.vip else vip.string) ++ " outside pool 10.44.64.0/18"

def addService (vips : Std.ExtTreeMap String Netip.Addr) (svc : ServiceVIP) :
    Except String (Std.ExtTreeMap String Netip.Addr) :=
  if svc.service = "" then .error ("service with empty name (vip " ++ quote svc.vip ++ ")")
  else
    let name := toLower svc.service
    if !serviceLabel name then .error ("service " ++ quote svc.service ++ " is not a DNS label")
    else if vips[name]?.isSome then .error ("service " ++ quote name ++ " listed twice")
    else
      match Netip.parseAddr svc.vip with
      | none => .error ("service " ++ svc.service ++ ": vip: ParseAddr(" ++ quote svc.vip ++ ")")
      | some vip =>
        if vip.is6 || !vipPool.contains vip then .error (outsidePool svc vip)
        else .ok (vips.insert name vip)

-- `net.JoinHostPort`.
def joinHostPort (host port : String) : String :=
  if host.toList.contains ':' then "[" ++ host ++ "]:" ++ port else host ++ ":" ++ port

def probeOf (t : ProbeTarget) : NetProbe := ⟨t.inst, t.ip, t.port, joinHostPort t.ip (toString t.port)⟩

-- The source ranges over the map in any order to collect the addresses; here it is name order.
def parseConfig (desired : NetDesired) (serial : ℕ) : Except String NetConfig := do
  let vips ← desired.services.foldlM addService ∅
  pure { serial := serial
         vips := vips
         vipList := (vips.toList.map (·.2)).dedup
         targets := desired.probeTargets.map probeOf }

section Accept

/- What the daemon asks of a service by itself. -/
structure Fine (svc : ServiceVIP) (vip : Netip.Addr) : Prop where
  named : svc.service ≠ ""
  label : serviceLabel (toLower svc.service)
  parses : Netip.parseAddr svc.vip = some vip
  is4 : vip.is6 = false
  inPool : vipPool.contains vip

theorem addService_fine {vips : Std.ExtTreeMap String Netip.Addr} {svc : ServiceVIP} {vip : Netip.Addr}
    (h : Fine svc vip) (hnew : vips[toLower svc.service]? = none) :
    addService vips svc = .ok (vips.insert (toLower svc.service) vip) := by
  unfold addService
  simp [h.named, h.label, hnew, h.parses, h.is4, h.inPool]

theorem addServices_fine (l : List ServiceVIP) (addr : ServiceVIP → Netip.Addr) (h : ∀ svc ∈ l, Fine svc (addr svc))
    (vips : Std.ExtTreeMap String Netip.Addr) (hnew : ∀ svc ∈ l, vips[toLower svc.service]? = none)
    (hnodup : (l.map fun svc => toLower svc.service).Nodup) :
    l.foldlM addService vips = .ok (Table.fill vips (l.map fun svc => (toLower svc.service, addr svc))) := by
  induction l generalizing vips with
  | nil => rfl
  | cons svc l ih =>
    rw [List.map_cons, List.nodup_cons] at hnodup
    rw [List.foldlM_cons, addService_fine (h svc List.mem_cons_self) (hnew svc List.mem_cons_self)]
    apply ih (fun svc' hm => h svc' (List.mem_cons_of_mem _ hm)) _ _ hnodup.2
    intro svc' hm
    have hne : toLower svc.service ≠ toLower svc'.service := by
      intro he
      exact hnodup.1 (List.mem_map.mpr ⟨svc', hm, he.symm⟩)
    rw [Table.get_insert, if_neg hne]
    exact hnew svc' (List.mem_cons_of_mem _ hm)

/-- Fine services under distinct lower-case names are accepted, with one entry for each. -/
theorem parseConfig_accepts (desired : NetDesired) (serial : ℕ) (addr : ServiceVIP → Netip.Addr)
    (h : ∀ svc ∈ desired.services, Fine svc (addr svc))
    (hnodup : (desired.services.map fun svc => toLower svc.service).Nodup) :
    ∃ cfg, parseConfig desired serial = .ok cfg ∧
      cfg.vips.toList.Perm (desired.services.map fun svc => (toLower svc.service, addr svc)) := by
  have hfold := addServices_fine desired.services addr h ∅ (fun _ _ => rfl) hnodup
  unfold parseConfig
  rw [hfold]
  refine ⟨_, rfl, ?_⟩
  apply Table.fill_perm
  rw [List.map_map]
  exact hnodup

end Accept

section Label

theorem lowerChar_label {c : Char} (h : labelEdge c ∨ c = '-') : lowerChar c = c := by
  have hlow : c.toNat < 65 ∨ 97 ≤ c.toNat ∧ c.toNat < 123 := by
    rcases h with h | rfl
    · simp only [labelEdge, Bool.or_eq_true, Bool.and_eq_true, decide_eq_true_eq, Char.le_def,
        UInt32.le_iff_toNat_le] at h
      have h' : (97 ≤ c.toNat ∧ c.toNat ≤ 122) ∨ (48 ≤ c.toNat ∧ c.toNat ≤ 57) := h
      omega
    · exact Or.inl (by decide)
  have hk : c ≠ Char.ofNat 0x212A := by
    intro he
    rw [he] at hlow
    revert hlow
    decide
  have hi : c ≠ Char.ofNat 0x130 := by
    intro he
    rw [he] at hlow
    revert hlow
    decide
  unfold lowerChar
  rw [if_neg hk, if_neg hi]
  unfold Char.toLower
  have hnot : ¬ (c.val ≥ 65 ∧ c.val ≤ 90) := by
    rintro ⟨hge, hle⟩
    have hge' : 65 ≤ c.toNat := UInt32.le_iff_toNat_le.mp hge
    have hle' : c.toNat ≤ 90 := UInt32.le_iff_toNat_le.mp hle
    omega
  simp [hnot]

theorem toLower_label {n : String} (h : dnsLabel n) : toLower n = n := by
  unfold toLower
  rw [List.map_congr_left fun c hc => lowerChar_label (label_chars h hc)]
  simp

theorem length_le_size (s : String) : s.toList.length ≤ s.utf8ByteSize := by
  have hlen : ∀ cs : List Char, cs.length ≤ String.utf8Len cs := by
    intro cs
    induction cs with
    | nil => exact Nat.le_refl 0
    | cons c cs ih =>
      have hpos := Char.utf8Size_pos c
      rw [String.utf8Len_cons, List.length_cons]
      omega
  have hs := String.utf8ByteSize_ofList s.toList
  rw [String.ofList_toList] at hs
  rw [hs]
  exact hlen _

theorem serviceLabel_of_valid {n : String} (h : dnsLabel n) (hshort : n.utf8ByteSize ≤ maxNameLen) : serviceLabel n := by
  have hlen := (length_le_size n).trans hshort
  have hall : ∀ c ∈ n.toList, (labelChar c || decide (c = '-')) = true := by
    intro c hc
    rw [Bool.or_eq_true, decide_eq_true_eq]
    exact label_chars h hc
  unfold dnsLabel at h
  simp only [Bool.and_eq_true] at h
  obtain ⟨⟨-, hhead⟩, hlast⟩ := h
  unfold serviceLabel
  cases hcs : n.toList with
  | nil =>
    rw [hcs] at hhead
    cases hhead
  | cons c cs =>
    rw [hcs] at hhead hlast hall hlen
    cases cs with
    | nil => exact hhead
    | cons d cs =>
      simp only [Bool.and_eq_true, decide_eq_true_eq, List.all_eq_true]
      refine ⟨⟨⟨hhead, fun e he => ?_⟩, ?_⟩, hlast⟩
      · exact hall e (List.mem_cons_of_mem _ (List.dropLast_subset _ he))
      · rw [List.length_dropLast]
        unfold maxNameLen at hlen
        simp only [List.length_cons] at hlen ⊢
        omega

end Label

end Klite.Netd
