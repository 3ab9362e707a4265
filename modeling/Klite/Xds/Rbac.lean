import Klite.Xds.Builder

/-!
# What a listener admits

Envoy runs the network filters of a listener in order. A DENY filter closes the
connection when one of its policies matches, an ALLOW filter when none does, and a
policy matches when one of its principals covers the source address.
-/

namespace Klite
open Lib

-- A source address: the family and the bits, without a zone.
structure Host where
  is6 : Bool
  bits : ℕ
  deriving DecidableEq

def Netip.Addr.host (a : Netip.Addr) : Host := ⟨a.is6, a.bits⟩

-- The first `len` bits agree.
def Netip.Addr.covers (a : Netip.Addr) (len : ℕ) (x : Host) : Bool :=
  a.is6 = x.is6 && a.bits / 2 ^ (a.bitLen - len) = x.bits / 2 ^ (a.bitLen - len)

def RbacPrincipal.covers (x : Host) : RbacPrincipal → Bool
  | .any => true
  | .directRemoteIp addressPrefix len => (Netip.parseAddr addressPrefix).any fun a => a.covers len x

def RbacPolicy.covers (x : Host) (p : RbacPolicy) : Bool := p.principals.any (·.covers x)

def NetworkFilter.closes (x : Host) : NetworkFilter → Bool
  | .rbac _ .deny policies => policies.toList.any fun e => e.2.covers x
  | .rbac _ .allow policies => !policies.toList.any fun e => e.2.covers x
  | .tcpProxy _ _ => false

def Listener.admits (l : Listener) (x : Host) : Bool := l.filters.all fun f => !f.closes x

section Keys

theorem pad3_toList (n : ℕ) : (pad3 n).toList = List.replicate (3 - (toString n).length) '0' ++ Nat.toDigits 10 n := by
  unfold pad3
  rw [String.toList_append, String.toList_ofList]
  exact congrArg _ Nat.toList_repr

theorem policyKey_index {i j : ℕ} {a b : String} (h : policyKey i a = policyKey j b) : i = j := by
  have hdash : ∀ n, ∀ c ∈ (pad3 n).toList, (c != '-') = true := by
    intro n c hc
    rw [pad3_toList] at hc
    have hd : c.isDigit := by
      rcases List.mem_append.mp hc with hc | hc
      · rw [List.eq_of_mem_replicate hc]
        decide
      · exact Nat.isDigit_of_mem_toDigits (by decide) (by decide) hc
    rw [bne_iff_ne]
    rintro rfl
    exact absurd hd (by decide)
  have hval : ∀ n, Nat.ofDigitChars 10 (pad3 n).toList 0 = n := by
    intro n
    rw [pad3_toList, Nat.ofDigitChars_append, Nat.ofDigitChars_replicate_zero, Nat.mul_zero,
      Nat.ofDigitChars_ten_toDigits]
  have htake : ∀ n s, (policyKey n s).toList.takeWhile (· != '-') = (pad3 n).toList := by
    intro n s
    have hl : (policyKey n s).toList = (pad3 n).toList ++ '-' :: s.toList := by
      unfold policyKey
      rw [String.toList_append, String.toList_append, List.append_assoc]
      rfl
    rw [hl, List.takeWhile_append_of_pos (hdash n), List.takeWhile_cons_of_neg (by decide), List.append_nil]
  rw [← hval i, ← hval j, ← htake i a, ← htake j b, h]

end Keys

section Filters
variable {net : NetDesired} {service : String} {x : Host}

def CompiledPolicy.covers (ids : Std.ExtTreeMap String String) (x : Host) (pol : CompiledPolicy) : Bool :=
  (principalsFor pol.source ids).any (·.covers x)

def SomePolicy (net : NetDesired) (action : PolicyAction) (service : String) (f : CompiledPolicy → Prop) : Prop :=
  ∃ pol ∈ net.policies, pol.action = action ∧ policyTargets pol service ∧ f pol

variable {action : PolicyAction} {e : CompiledPolicy × ℕ}

theorem mem_targeting : e ∈ targeting action service net ↔
    net.policies[e.2]? = some e.1 ∧ policyTargets e.1 service ∧ e.1.action = action := by
  unfold targeting
  rw [List.mem_filter, List.mem_zipIdx_iff_getElem?, Bool.and_eq_true, decide_eq_true_eq]

theorem targeting_nil : targeting action service net = [] ↔ ¬ SomePolicy net action service fun _ => True := by
  rw [List.eq_nil_iff_forall_not_mem]
  constructor
  · rintro h ⟨pol, hm, ha, ht, -⟩
    obtain ⟨i, hi⟩ := List.mem_iff_getElem?.mp hm
    exact h (pol, i) (mem_targeting.mpr ⟨hi, ht, ha⟩)
  · rintro h e he
    obtain ⟨hi, ht, ha⟩ := mem_targeting.mp he
    exact h ⟨e.1, List.mem_of_getElem? hi, ha, ht, trivial⟩

theorem addPolicy_covers {ids : Std.ExtTreeMap String String} (h : e.1.covers ids x) :
    addPolicy ids e = some (policyKey e.2 e.1.policyName, ⟨principalsFor e.1.source ids⟩) := by
  unfold addPolicy
  dsimp only
  rw [if_neg]
  intro hnil
  rw [CompiledPolicy.covers, hnil] at h
  cases h

theorem addPolicy_some {ids : Std.ExtTreeMap String String} {k : String} {p : RbacPolicy}
    (h : addPolicy ids e = some (k, p)) : k = policyKey e.2 e.1.policyName ∧ p.covers x = e.1.covers ids x := by
  unfold addPolicy at h
  dsimp only at h
  split at h
  · cases h
  · obtain ⟨rfl, rfl⟩ := Prod.mk.inj (Option.some.inj h)
    exact ⟨rfl, rfl⟩

theorem rbacPolicies_covers : ((rbacPolicies action service net).toList.any fun e => e.2.covers x) = true ↔
      SomePolicy net action service fun pol => pol.covers net.ipIdentity x := by
  rw [List.any_eq_true]
  unfold rbacPolicies mapOf
  constructor
  · rintro ⟨⟨k, p⟩, hm, hp⟩
    have hin := (Table.get_fill_some (Table.mem_toList.mp hm)).resolve_right (by simp)
    obtain ⟨e, he, hadd⟩ := List.mem_filterMap.mp hin
    obtain ⟨hi, ht, ha⟩ := mem_targeting.mp he
    exact ⟨e.1, List.mem_of_getElem? hi, ha, ht, (addPolicy_some (x := x) hadd).2.symm.trans hp⟩
  · rintro ⟨pol, hm, ha, ht, hc⟩
    obtain ⟨i, hi⟩ := List.mem_iff_getElem?.mp hm
    have hadd := addPolicy_covers (e := (pol, i)) hc
    refine ⟨(policyKey i pol.policyName, ⟨principalsFor pol.source net.ipIdentity⟩), ?_, hc⟩
    rw [Table.mem_toList]
    refine Table.get_fill_mem (List.mem_filterMap.mpr ⟨(pol, i), mem_targeting.mpr ⟨hi, ht, ha⟩, hadd⟩) ?_
    -- Two entries under one key have one index.
    intro p' hp'
    obtain ⟨⟨pol', j⟩, he', hadd'⟩ := List.mem_filterMap.mp hp'
    have hk := (addPolicy_some (x := x) hadd').1
    obtain rfl : i = j := policyKey_index hk
    obtain rfl := Option.some.inj (hi.symm.trans (mem_targeting.mp he').1)
    exact (Prod.mk.inj (Option.mem_unique hadd' hadd)).2

theorem rbacPolicies_empty (h : (rbacPolicies action service net).isEmpty) :
    ((rbacPolicies action service net).toList.any fun e => e.2.covers x) = false := by
  rw [Std.ExtTreeMap.isEmpty_iff] at h
  rw [h]
  rfl

theorem admits_buildListener (svc : ServiceVIP) (hs : svc.service = service) : (buildListener net svc).admits x = true ↔
      ¬ SomePolicy net .deny service (fun pol => pol.covers net.ipIdentity x) ∧
      (SomePolicy net .allow service (fun _ => True) →
        SomePolicy net .allow service fun pol => pol.covers net.ipIdentity x) := by
  subst hs
  rw [← rbacPolicies_covers, ← rbacPolicies_covers]
  unfold Listener.admits buildListener rbacFilters
  dsimp only
  rw [List.all_append, List.all_append, Bool.and_eq_true, Bool.and_eq_true]
  have hproxy : [NetworkFilter.tcpProxy svc.service svc.service].all (fun f => !f.closes x) = true := rfl
  rw [hproxy, eq_self_iff_true, and_true]
  refine and_congr ?_ ?_
  · split
    · rename_i he
      rw [rbacPolicies_empty he]
      simp
    · simp [NetworkFilter.closes]
  · split
    · rename_i he
      simp [targeting_nil.mp he]
    · rename_i he
      have hsome := not_not.mp (mt targeting_nil.mpr he)
      simp [NetworkFilter.closes, hsome]

end Filters

end Klite
