import Mathlib.Data.List.Sort
import Klite.Object.Types

/-!
# Network policies (internal/policy/policy.go)

DENY rules always win, and a service is in allowlist mode once any ALLOW rule
targets it. `Evaluate` answers one connection; `Compile` flattens the rules for
the data plane. A rule's `from` and `to` are its `source` and `target` here.
-/

namespace Klite

structure Decision where
  allowed : Bool
  matchedPolicy : String := ""
  reason : String
  deriving DecidableEq

structure CompiledPolicy where
  action : PolicyAction := .unspecified
  source : String := ""
  target : String := ""
  except : List String := []
  policyName : String := ""
  deriving DecidableEq

-- A stable sort: equal names keep their order.
def sortedByName (policies : List NetworkPolicy) : List NetworkPolicy :=
  policies.insertionSort fun a b => a.metadata.name ≤ b.metadata.name

def ruleFromMatches (r : PolicyRule) (source : String) : Bool := r.source = "*" || r.source = source

-- The except list is consulted only on the wildcard.
def ruleTargets (r : PolicyRule) (target : String) : Bool :=
  r.target = target || (r.target = "*" && !r.except.contains target)

def ruleMatches (r : PolicyRule) (source target : String) : Bool :=
  ruleFromMatches r source && ruleTargets r target

def firstRule (p : NetworkPolicy) (f : PolicyRule → Bool) : Option ℕ :=
  p.spec.rules.zipIdx.findSome? fun e => if f e.1 then some (e.2 + 1) else none

def denyOf (source target : String) (p : NetworkPolicy) : Option Decision :=
  if p.spec.action ≠ .deny then none
  else (firstRule p fun r => ruleMatches r source target).map fun i =>
    { allowed := false
      matchedPolicy := p.metadata.name
      reason := "denied by " ++ p.metadata.name ++ " rule " ++ toString i }

def allowOf (source target : String) (p : NetworkPolicy) : Option Decision :=
  if p.spec.action ≠ .allow then none
  else (firstRule p fun r => ruleTargets r target && ruleFromMatches r source).map fun i =>
    { allowed := true
      matchedPolicy := p.metadata.name
      reason := "allowed by " ++ p.metadata.name ++ " rule " ++ toString i }

def allowlisted (policies : List NetworkPolicy) (target : String) : Bool :=
  policies.any fun p => p.spec.action = .allow && p.spec.rules.any fun r => ruleTargets r target

def evaluate (policies : List NetworkPolicy) (source target : String) : Decision :=
  let sorted := sortedByName policies
  match sorted.findSome? (denyOf source target) with
  | some d => d
  | none =>
    match sorted.findSome? (allowOf source target) with
    | some d => d
    | none =>
      if allowlisted sorted target then
        { allowed := false, reason := target ++ " is allowlist-mode and no ALLOW admits " ++ source }
      else { allowed := true, reason := "no ALLOW targets " ++ target ++ ", default allow" }

def compileRule (p : NetworkPolicy) (r : PolicyRule) : CompiledPolicy where
  action := p.spec.action
  source := r.source
  target := r.target
  except := r.except
  policyName := p.metadata.name

def compile (policies : List NetworkPolicy) : List CompiledPolicy :=
  (sortedByName policies).flatMap fun p => p.spec.rules.map (compileRule p)

def SomeRule (policies : List NetworkPolicy) (action : PolicyAction) (f : PolicyRule → Bool) : Prop :=
  ∃ p ∈ policies, p.spec.action = action ∧ ∃ r ∈ p.spec.rules, f r

variable {p : NetworkPolicy}

theorem mem_sortedByName {policies : List NetworkPolicy} :
    p ∈ sortedByName policies ↔ p ∈ policies := List.mem_insertionSort _

theorem firstRule_isSome {f : PolicyRule → Bool} : (firstRule p f).isSome ↔ ∃ r ∈ p.spec.rules, f r := by
  unfold firstRule
  rw [List.isSome_findSome?, List.any_eq_true]
  constructor
  · rintro ⟨⟨r, i⟩, hm, hs⟩
    refine ⟨r, List.mem_of_getElem? (List.mem_zipIdx_iff_getElem?.mp hm), ?_⟩
    by_contra hf
    simp [hf] at hs
  · rintro ⟨r, hr, hf⟩
    obtain ⟨i, hi⟩ := List.mem_iff_getElem?.mp hr
    exact ⟨(r, i), List.mem_zipIdx_iff_getElem?.mpr hi, by simp [hf]⟩

section Evaluate
variable {policies : List NetworkPolicy} {source target : String}

theorem denyOf_isSome : (denyOf source target p).isSome ↔
    p.spec.action = .deny ∧ ∃ r ∈ p.spec.rules, ruleMatches r source target := by
  unfold denyOf
  split
  · simp_all
  · rw [Option.isSome_map, firstRule_isSome]
    simp_all

theorem allowOf_isSome : (allowOf source target p).isSome ↔
    p.spec.action = .allow ∧ ∃ r ∈ p.spec.rules, ruleMatches r source target := by
  unfold allowOf
  split
  · simp_all
  · rw [Option.isSome_map, firstRule_isSome]
    simp_all [ruleMatches, and_comm]

theorem decides_isSome {f : NetworkPolicy → Option Decision} {action : PolicyAction} {g : PolicyRule → Bool}
    (hf : ∀ p, (f p).isSome ↔ p.spec.action = action ∧ ∃ r ∈ p.spec.rules, g r) :
    ((sortedByName policies).findSome? f).isSome ↔ SomeRule policies action g := by
  rw [List.isSome_findSome?, List.any_eq_true]
  simp only [hf, mem_sortedByName, SomeRule]

theorem allowlisted_iff : allowlisted (sortedByName policies) target ↔
    SomeRule policies .allow fun r => ruleTargets r target := by
  unfold allowlisted SomeRule
  simp [mem_sortedByName]

theorem denyOf_allowed {d : Decision} (h : denyOf source target p = some d) : d.allowed = false := by
  unfold denyOf at h
  split at h
  · cases h
  · obtain ⟨i, -, rfl⟩ := Option.map_eq_some_iff.mp h
    rfl

theorem allowOf_allowed {d : Decision} (h : allowOf source target p = some d) : d.allowed = true := by
  unfold allowOf at h
  split at h
  · cases h
  · obtain ⟨i, -, rfl⟩ := Option.map_eq_some_iff.mp h
    rfl

/-- What `Evaluate` allows: no DENY rule matches, and an ALLOW rule does unless none
targets the destination. -/
theorem evaluate_allowed : (evaluate policies source target).allowed = true ↔
    ¬ SomeRule policies .deny (fun r => ruleMatches r source target) ∧
    (SomeRule policies .allow (fun r => ruleTargets r target) →
      SomeRule policies .allow fun r => ruleMatches r source target) := by
  unfold evaluate
  dsimp only
  rw [← decides_isSome (fun _ => denyOf_isSome), ← decides_isSome (fun _ => allowOf_isSome),
    ← allowlisted_iff]
  cases hd : (sortedByName policies).findSome? (denyOf source target) with
  | some d =>
    obtain ⟨p, -, hp⟩ := List.exists_of_findSome?_eq_some hd
    simp [denyOf_allowed hp]
  | none =>
    cases ha : (sortedByName policies).findSome? (allowOf source target) with
    | some d =>
      obtain ⟨p, -, hp⟩ := List.exists_of_findSome?_eq_some ha
      simp [allowOf_allowed hp]
    | none =>
      cases allowlisted (sortedByName policies) target <;> simp

end Evaluate

theorem mem_compile {policies : List NetworkPolicy} {c : CompiledPolicy} :
    c ∈ compile policies ↔ ∃ p ∈ policies, ∃ r ∈ p.spec.rules, compileRule p r = c := by
  unfold compile
  simp [mem_sortedByName]

end Klite
