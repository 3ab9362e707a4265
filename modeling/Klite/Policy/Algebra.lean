import Klite.Policy.Evaluate

/-!
# The algebra of policies (internal/policy/policy.go)
-/

namespace Klite

def policyNames (policies : List NetworkPolicy) : List String := policies.map (·.metadata.name)

section Order

instance nameOrder_total : Std.Total fun a b : NetworkPolicy => a.metadata.name ≤ b.metadata.name :=
  ⟨fun a b => le_total a.metadata.name b.metadata.name⟩

instance nameOrder_trans : IsTrans NetworkPolicy fun a b => a.metadata.name ≤ b.metadata.name :=
  ⟨fun _ _ _ h h' => le_trans h h'⟩

theorem sortedByName_sorted (policies : List NetworkPolicy) :
    (sortedByName policies).Pairwise fun a b => a.metadata.name ≤ b.metadata.name :=
  List.pairwise_insertionSort _ policies

theorem sortedByName_perm (policies : List NetworkPolicy) : (sortedByName policies).Perm policies :=
  List.perm_insertionSort _ policies

theorem eq_of_name {policies : List NetworkPolicy} (hnames : (policyNames policies).Nodup) {p q : NetworkPolicy}
    (hp : p ∈ policies) (hq : q ∈ policies) (h : p.metadata.name = q.metadata.name) : p = q :=
  List.inj_on_of_nodup_map hnames hp hq h

theorem sortedByName_of_perm {policies policies' : List NetworkPolicy} (hnames : (policyNames policies).Nodup)
    (h : policies'.Perm policies) : sortedByName policies' = sortedByName policies := by
  have hperm : (sortedByName policies').Perm (sortedByName policies) :=
    (sortedByName_perm policies').trans (h.trans (sortedByName_perm policies).symm)
  refine List.Perm.eq_of_pairwise ?_ (sortedByName_sorted policies') (sortedByName_sorted policies) hperm
  intro p q hp hq hle hge
  exact eq_of_name hnames (h.mem_iff.mp (mem_sortedByName.mp hp)) (mem_sortedByName.mp hq) (le_antisymm hle hge)

theorem evaluate_of_perm {policies policies' : List NetworkPolicy} (hnames : (policyNames policies).Nodup)
    (h : policies'.Perm policies) (source target : String) :
    evaluate policies' source target = evaluate policies source target := by
  unfold evaluate
  rw [sortedByName_of_perm hnames h]

end Order

section Added
variable {policies : List NetworkPolicy} {q : NetworkPolicy} {source target : String}

theorem someRule_cons {action : PolicyAction} {f : PolicyRule → Bool} :
    SomeRule (q :: policies) action f ↔ (q.spec.action = action ∧ ∃ r ∈ q.spec.rules, f r) ∨ SomeRule policies action f := by
  unfold SomeRule
  simp only [List.mem_cons, exists_eq_or_imp]

theorem deny_added (hq : q.spec.action = .deny) (h : (evaluate policies source target).allowed = false) :
    (evaluate (q :: policies) source target).allowed = false := by
  rw [← Bool.not_eq_true, evaluate_allowed] at h ⊢
  rintro ⟨hdeny, hallow⟩
  apply h
  have hother : ∀ f, SomeRule (q :: policies) .allow f ↔ SomeRule policies .allow f := by
    intro f
    rw [someRule_cons, hq]
    simp
  refine ⟨fun hd => hdeny (someRule_cons.mpr (.inr hd)), fun ht => ?_⟩
  exact (hother _).mp (hallow ((hother _).mpr ht))

theorem allow_added_denied (h : SomeRule policies .deny fun r => ruleMatches r source target) :
    (evaluate (q :: policies) source target).allowed = false := by
  rw [← Bool.not_eq_true, evaluate_allowed]
  exact fun hall => hall.1 (someRule_cons.mpr (.inr h))

theorem allow_added_closes (hq : q.spec.action = .allow) (h : (evaluate policies source target).allowed = true)
    (h' : (evaluate (q :: policies) source target).allowed = false) :
    ¬ SomeRule policies .allow fun r => ruleTargets r target := by
  rw [← Bool.not_eq_true, evaluate_allowed] at h'
  rw [evaluate_allowed] at h
  intro ht
  apply h'
  refine ⟨fun hd => ?_, fun _ => someRule_cons.mpr (.inr (h.2 ht))⟩
  rcases someRule_cons.mp hd with ⟨hdeny, -⟩ | hd
  · rw [hq] at hdeny
    cases hdeny
  · exact h.1 hd

theorem findSome?_insert {f : NetworkPolicy → Option Decision} (hf : f q = none) :
    (sortedByName (q :: policies)).findSome? f = (sortedByName policies).findSome? f := by
  have hcons : sortedByName (q :: policies) =
      (sortedByName policies).orderedInsert (fun a b => a.metadata.name ≤ b.metadata.name) q := List.insertionSort_cons _ _ _
  rw [hcons]
  induction sortedByName policies with
  | nil => simp [hf]
  | cons p l ih =>
    rw [List.orderedInsert_cons]
    split
    · rw [List.findSome?_cons, hf]
    · rw [List.findSome?_cons, List.findSome?_cons, ih]

theorem evaluate_untargeted (h : ∀ r ∈ q.spec.rules, ruleTargets r target = false) :
    evaluate (q :: policies) source target = evaluate policies source target := by
  have hnone : ∀ r ∈ q.spec.rules, ruleMatches r source target = false := by
    intro r hr
    unfold ruleMatches
    rw [h r hr, Bool.and_false]
  have hdeny : denyOf source target q = none := by
    rw [← Option.not_isSome_iff_eq_none, denyOf_isSome]
    rintro ⟨-, r, hr, hm⟩
    rw [hnone r hr] at hm
    cases hm
  have hallow : allowOf source target q = none := by
    rw [← Option.not_isSome_iff_eq_none, allowOf_isSome]
    rintro ⟨-, r, hr, hm⟩
    rw [hnone r hr] at hm
    cases hm
  have hlist : allowlisted (sortedByName (q :: policies)) target = allowlisted (sortedByName policies) target := by
    rw [Bool.eq_iff_iff, allowlisted_iff, allowlisted_iff, someRule_cons, or_iff_right]
    rintro ⟨-, r, hr, ht⟩
    rw [h r hr] at ht
    cases ht
  unfold evaluate
  dsimp only
  rw [findSome?_insert hdeny, findSome?_insert hallow, hlist]

end Added

section Matched
variable {policies : List NetworkPolicy} {source target : String}

/-- The policy answers for the pair under this action. -/
def Answers (action : PolicyAction) (source target : String) (p : NetworkPolicy) : Prop :=
  p.spec.action = action ∧ ∃ r ∈ p.spec.rules, ruleMatches r source target

theorem first_least {f : NetworkPolicy → Option Decision} {action : PolicyAction} {d : Decision}
    (hf : ∀ p, (f p).isSome ↔ Answers action source target p)
    (hname : ∀ p d, f p = some d → d.matchedPolicy = p.metadata.name)
    (h : (sortedByName policies).findSome? f = some d) :
    (∃ p ∈ policies, Answers action source target p ∧ p.metadata.name = d.matchedPolicy) ∧
    ∀ p ∈ policies, Answers action source target p → d.matchedPolicy ≤ p.metadata.name := by
  obtain ⟨l, p, l', hl, hp, hnone⟩ := List.findSome?_eq_some_iff.mp h
  have hsorted := sortedByName_sorted policies
  have hmem : ∀ q, q ∈ policies ↔ q ∈ l ∨ q = p ∨ q ∈ l' := by
    intro q
    rw [← mem_sortedByName, hl, List.mem_append, List.mem_cons]
  have hans : Answers action source target p := (hf p).mp (by rw [hp]; rfl)
  refine ⟨⟨p, (hmem p).mpr (.inr (.inl rfl)), hans, (hname p d hp).symm⟩, ?_⟩
  intro q hq hqa
  rw [hname p d hp]
  rcases (hmem q).mp hq with hq | rfl | hq
  · have hs := (hf q).mpr hqa
    rw [hnone q hq] at hs
    cases hs
  · exact le_refl _
  · rw [hl] at hsorted
    exact List.rel_of_pairwise_cons (List.pairwise_append.mp hsorted).2.1 hq

theorem denyOf_name {p : NetworkPolicy} {d : Decision} (h : denyOf source target p = some d) :
    d.matchedPolicy = p.metadata.name := by
  unfold denyOf at h
  split at h
  · cases h
  · obtain ⟨i, -, rfl⟩ := Option.map_eq_some_iff.mp h
    rfl

theorem allowOf_name {p : NetworkPolicy} {d : Decision} (h : allowOf source target p = some d) :
    d.matchedPolicy = p.metadata.name := by
  unfold allowOf at h
  split at h
  · cases h
  · obtain ⟨i, -, rfl⟩ := Option.map_eq_some_iff.mp h
    rfl

def Decision.action (d : Decision) : PolicyAction := if d.allowed then .allow else .deny

theorem evaluate_matched (h : (evaluate policies source target).matchedPolicy ≠ "") :
    (∃ p ∈ policies, Answers (evaluate policies source target).action source target p ∧
      p.metadata.name = (evaluate policies source target).matchedPolicy) ∧
    ∀ p ∈ policies, Answers (evaluate policies source target).action source target p →
      (evaluate policies source target).matchedPolicy ≤ p.metadata.name := by
  generalize hd : evaluate policies source target = d at h ⊢
  unfold evaluate at hd
  dsimp only at hd
  unfold Decision.action
  split at hd
  · next d' hfind =>
    subst hd
    obtain ⟨p, -, hp⟩ := List.exists_of_findSome?_eq_some hfind
    rw [denyOf_allowed hp]
    exact first_least (fun _ => denyOf_isSome) (fun _ _ => denyOf_name) hfind
  · split at hd
    · next d' hfind =>
      subst hd
      obtain ⟨p, -, hp⟩ := List.exists_of_findSome?_eq_some hfind
      rw [allowOf_allowed hp]
      exact first_least (fun _ => allowOf_isSome) (fun _ _ => allowOf_name) hfind
    · -- The two defaults name no policy.
      split at hd
      all_goals
        subst hd
        exact absurd rfl h

end Matched

/-- The order of the policies does not matter; one more DENY denies no less, one more ALLOW allows nothing that a DENY rule
matches, changes no decision for a destination it does not target, and closes one it targets only if no ALLOW rule targeted
it before; and the policy named is the first by name among those of the deciding action that match. -/
theorem policy_algebra (policies : List NetworkPolicy) (hnames : (policyNames policies).Nodup) (source target : String) :
    (∀ policies', policies'.Perm policies → evaluate policies' source target = evaluate policies source target) ∧
    (∀ q, q.metadata.name ∉ policyNames policies → ∀ policies', policies'.Perm (q :: policies) →
      (q.spec.action = .deny → (evaluate policies source target).allowed = false →
        (evaluate policies' source target).allowed = false) ∧
      (q.spec.action = .allow →
        (SomeRule policies .deny (fun r => ruleMatches r source target) → (evaluate policies' source target).allowed = false) ∧
        ((∀ r ∈ q.spec.rules, ruleTargets r target = false) →
          evaluate policies' source target = evaluate policies source target) ∧
        ((∃ r ∈ q.spec.rules, ruleTargets r target) → (evaluate policies source target).allowed = true →
          (evaluate policies' source target).allowed = false → ¬ SomeRule policies .allow fun r => ruleTargets r target))) ∧
    ((evaluate policies source target).matchedPolicy ≠ "" →
      (∃ p ∈ policies, Answers (evaluate policies source target).action source target p ∧
        p.metadata.name = (evaluate policies source target).matchedPolicy) ∧
      ∀ p ∈ policies, Answers (evaluate policies source target).action source target p →
        (evaluate policies source target).matchedPolicy ≤ p.metadata.name) := by
  refine ⟨fun policies' h => evaluate_of_perm hnames h source target, ?_, evaluate_matched⟩
  intro q hq policies' hperm
  have hnames' : (policyNames (q :: policies)).Nodup := List.nodup_cons.mpr ⟨hq, hnames⟩
  rw [evaluate_of_perm hnames' hperm]
  refine ⟨deny_added, fun hallow => ⟨allow_added_denied, evaluate_untargeted, ?_⟩⟩
  exact fun _ => allow_added_closes hallow

def quarantine : NetworkPolicy where
  metadata := { name := "quarantine" }
  spec := { action := .deny, rules := [{ source := "guest", target := "*" }] }

def webOnly : NetworkPolicy where
  metadata := { name := "web-only" }
  spec := { action := .allow, rules := [{ source := "web", target := "db" }] }

-- The first ALLOW for "db" shuts out "batch".
theorem policy_algebra_webOnly : (evaluate [quarantine] "batch" "db").allowed = true ∧
    (evaluate [quarantine, webOnly] "batch" "db").allowed = false ∧
    ¬ SomeRule [quarantine] .allow (fun r => ruleTargets r "db") := by
  obtain ⟨-, hadded, -⟩ := policy_algebra [quarantine] (by decide) "batch" "db"
  have hallow := (hadded webOnly (by decide) [quarantine, webOnly] (List.Perm.swap _ _ _)).2 rfl
  have hopen : (evaluate [quarantine] "batch" "db").allowed = true := by decide
  have hshut : (evaluate [quarantine, webOnly] "batch" "db").allowed = false := by decide
  exact ⟨hopen, hshut, hallow.2.2 (by decide) hopen hshut⟩

end Klite
