import Klite.Policy.Evaluate
import Klite.Object.Validate

/-!
# The browser's policy evaluator (frontend/app/sim/policy.ts)

The UI answers policy checks with a second, separately written evaluator. An early
`return` of its loops is an `Except` error here, so that the ALLOW loop keeps its
`targeted` flag as the source does. An `except` that the document leaves out is the
empty list: `r.except?.includes(to)` is then not true either.
-/

namespace Klite.Ui

inductive VerdictReason where
  | denyRule
  | allowRule
  | defaultAllow
  | noAllowMatch
  deriving DecidableEq

structure MatchedRule where
  policy : String
  ruleIndex : ℕ
  action : PolicyAction
  deriving DecidableEq

structure Verdict where
  allowed : Bool
  reason : VerdictReason
  matchedRule : Option MatchedRule := none
  deriving DecidableEq

structure PolicyVerdict where
  available : Bool
  allowed : Bool
  matchedPolicy : Option String
  reason : String
  deriving DecidableEq

def selectorMatches (selector name : String) : Bool := selector = "*" || selector = name

def denies (p : NetworkPolicy) (i : ℕ) : Verdict where
  allowed := false
  reason := .denyRule
  matchedRule := some { policy := p.metadata.name, ruleIndex := i, action := .deny }

def allows (p : NetworkPolicy) (i : ℕ) : Verdict where
  allowed := true
  reason := .allowRule
  matchedRule := some { policy := p.metadata.name, ruleIndex := i, action := .allow }

def denyRule (source target : String) (p : NetworkPolicy) (e : PolicyRule × ℕ) : Except Verdict Unit :=
  if selectorMatches e.1.source source && selectorMatches e.1.target target &&
      !e.1.except.contains target then throw (denies p e.2)
  else pure ()

def denyPhase (source target : String) (policies : List NetworkPolicy) : Except Verdict Unit :=
  policies.forM fun p =>
    if p.spec.action ≠ .deny then pure ()
    else p.spec.rules.zipIdx.forM (denyRule source target p)

def allowRule (source target : String) (p : NetworkPolicy) (targeted : Bool) (e : PolicyRule × ℕ) :
    Except Verdict Bool :=
  if !selectorMatches e.1.target target || e.1.except.contains target then pure targeted
  else if selectorMatches e.1.source source then throw (allows p e.2)
  else pure true

def allowPhase (source target : String) (policies : List NetworkPolicy) : Except Verdict Bool :=
  policies.foldlM (fun targeted p =>
    if p.spec.action ≠ .allow then pure targeted
    else p.spec.rules.zipIdx.foldlM (allowRule source target p) targeted) false

-- Array.prototype.sort is stable.
def sortPolicies (localeCompare : String → String → Int) (rawPolicies : List NetworkPolicy) : List NetworkPolicy :=
  rawPolicies.insertionSort fun a b => localeCompare a.metadata.name b.metadata.name ≤ 0

def evaluate (localeCompare : String → String → Int) (rawPolicies : List NetworkPolicy)
    (source target : String) : Verdict :=
  let policies := sortPolicies localeCompare rawPolicies
  match (do denyPhase source target policies; allowPhase source target policies : Except Verdict Bool) with
  | .error v => v
  | .ok true => { allowed := false, reason := .noAllowMatch }
  | .ok false => { allowed := true, reason := .defaultAllow }

def toPolicyVerdict (v : Verdict) (source target : String) : PolicyVerdict where
  available := true
  allowed := v.allowed
  matchedPolicy := v.matchedRule.map (·.policy)
  reason :=
    -- A template literal prints a missing policy as undefined.
    let policy := (v.matchedRule.map (·.policy)).getD "undefined"
    let index := toString ((v.matchedRule.map (·.ruleIndex)).getD 0 + 1)
    match v.reason with
    | .denyRule => "denied by " ++ policy ++ " rule " ++ index
    | .allowRule => "allowed by " ++ policy ++ " rule " ++ index
    | .defaultAllow => "no ALLOW targets " ++ target ++ ", default allow"
    | .noAllowMatch => target ++ " is allowlist-mode and no ALLOW admits " ++ source

/- The server's answer as the facade hands it to the UI: no policy is an empty name. -/
def ofDecision (d : Decision) : PolicyVerdict where
  available := true
  allowed := d.allowed
  matchedPolicy := if d.matchedPolicy = "" then none else some d.matchedPolicy
  reason := d.reason

/- The collation agrees with the byte order on DNS labels. -/
def OrdersLabels (localeCompare : String → String → Int) : Prop :=
  ∀ a b, dnsLabel a → dnsLabel b → (localeCompare a b < 0 ↔ a < b) ∧ (localeCompare a b = 0 ↔ a = b)

variable {policies : List NetworkPolicy}

theorem sort_agrees {localeCompare : String → String → Int} (hcmp : OrdersLabels localeCompare)
    (hnames : ∀ p ∈ policies, dnsLabel p.metadata.name) :
    sortPolicies localeCompare policies = sortedByName policies := by
  have h := List.map_insertionSort (fun a b : NetworkPolicy => localeCompare a.metadata.name b.metadata.name ≤ 0)
    (fun a b : NetworkPolicy => a.metadata.name ≤ b.metadata.name) id policies (by
      intro a ha b hb
      obtain ⟨hlt, heq⟩ := hcmp _ _ (hnames a ha) (hnames b hb)
      rw [id, id, le_iff_lt_or_eq, le_iff_lt_or_eq, hlt, heq])
  rwa [List.map_id, List.map_id] at h

/-! ## Loops that return early -/

section Loops
variable {α ε : Type}

def returned {β : Type} : Option ε → β → Except ε β
  | some v, _ => .error v
  | none, b => .ok b

theorem forM_returned {f : α → Except ε Unit} {g : α → Option ε} {l : List α}
    (h : ∀ a ∈ l, f a = returned (g a) ()) : l.forM f = returned (l.findSome? g) () := by
  induction l with
  | nil => rfl
  | cons a l ih =>
    have ha := h a List.mem_cons_self
    have hl := ih fun b hb => h b (List.mem_cons_of_mem a hb)
    change (do f a; l.forM f) = _
    rw [ha, List.findSome?_cons]
    cases g a with
    | some v => rfl
    | none => exact hl

theorem foldlM_returned {f : Bool → α → Except ε Bool} {g : α → Option ε} {raises : α → Bool}
    {l : List α} (h : ∀ a ∈ l, ∀ b, f b a = returned (g a) (b || raises a)) (b : Bool) :
    l.foldlM f b = returned (l.findSome? g) (b || l.any raises) := by
  induction l generalizing b with
  | nil => rw [List.any_nil, Bool.or_false]; rfl
  | cons a l ih =>
    have ha := h a List.mem_cons_self b
    have hl := ih (fun c hc => h c (List.mem_cons_of_mem a hc)) (b || raises a)
    rw [List.foldlM_cons, ha, List.findSome?_cons, List.any_cons, ← Bool.or_assoc]
    cases g a with
    | some v => rfl
    | none => exact hl

end Loops

section Phases
variable {source target : String}

-- What the rule's destination has to be, in both phases.
def covers (target : String) (r : PolicyRule) : Bool :=
  selectorMatches r.target target && !r.except.contains target

def ruleVerdict (f : PolicyRule → Bool) (v : ℕ → Verdict) (e : PolicyRule × ℕ) : Option Verdict :=
  if f e.1 then some (v e.2) else none

def denyVerdict (source target : String) (p : NetworkPolicy) : Option Verdict :=
  if p.spec.action ≠ .deny then none
  else p.spec.rules.zipIdx.findSome?
    (ruleVerdict (fun r => selectorMatches r.source source && covers target r) (denies p))

def allowVerdict (source target : String) (p : NetworkPolicy) : Option Verdict :=
  if p.spec.action ≠ .allow then none
  else p.spec.rules.zipIdx.findSome?
    (ruleVerdict (fun r => covers target r && selectorMatches r.source source) (allows p))

theorem denyPhase_eq (policies : List NetworkPolicy) :
    denyPhase source target policies = returned (policies.findSome? (denyVerdict source target)) () := by
  unfold denyPhase
  refine forM_returned fun p _ => ?_
  unfold denyVerdict
  split
  · rfl
  · refine forM_returned fun e _ => ?_
    simp only [denyRule, ruleVerdict, covers, ← Bool.and_assoc]
    split <;> rfl

theorem allowRule_eq (p : NetworkPolicy) (b : Bool) (e : PolicyRule × ℕ) :
    allowRule source target p b e =
      returned (ruleVerdict (fun r => covers target r && selectorMatches r.source source) (allows p) e)
        (b || covers target e.1) := by
  have hc : (!selectorMatches e.1.target target || e.1.except.contains target) = !covers target e.1 := by
    unfold covers
    rw [Bool.not_and, Bool.not_not]
  unfold allowRule ruleVerdict
  rw [hc]
  cases hcov : covers target e.1 with
  | false =>
    simp only [hcov, Bool.not_false, if_true, Bool.false_and, Bool.false_eq_true, if_false, Bool.or_false]
    rfl
  | true =>
    cases hsrc : selectorMatches e.1.source source <;> simp [hcov, hsrc] <;> rfl

theorem allowPhase_eq (policies : List NetworkPolicy) :
    allowPhase source target policies = returned (policies.findSome? (allowVerdict source target))
      (policies.any fun p => p.spec.action = .allow && p.spec.rules.any (covers target)) := by
  unfold allowPhase
  refine (foldlM_returned (fun p _ b => ?_) false).trans (by rw [Bool.false_or])
  unfold allowVerdict
  split
  · rename_i hact
    simp only [hact, decide_false, Bool.false_and, Bool.or_false]
    rfl
  · rename_i hact
    have hany : p.spec.rules.zipIdx.any (fun e => covers target e.1) = p.spec.rules.any (covers target) := by
      have hmap := List.any_map (f := Prod.fst) (l := p.spec.rules.zipIdx) (p := covers target)
      rw [List.zipIdx_map_fst] at hmap
      exact hmap.symm
    rw [foldlM_returned fun e _ b => allowRule_eq p b e, hany]
    simp only [not_not.mp hact, decide_true, Bool.true_and]

variable {p : NetworkPolicy}

/- Validation leaves an `except` list only on the wildcard, so consulting it everywhere, as
the browser does, is consulting it there. -/
theorem covers_iff (hv : validatePolicy p = none) (ht : dnsLabel target) {r : PolicyRule} (hr : r ∈ p.spec.rules) :
    covers target r = ruleTargets r target := by
  have hstar : target ≠ "*" := by
    rintro rfl
    exact absurd ht (by decide)
  have hexc := validatePolicy_rule p hv r hr
  unfold covers ruleTargets selectorMatches
  by_cases hw : r.target = "*"
  · simp [hw, hstar.symm]
  · have hnil : r.except = [] := by
      by_contra hne
      exact hw (hexc hne)
    simp [hw, hnil]

theorem findSome_members {α β : Type} {f g : α → Option β} {l : List α} (h : ∀ a ∈ l, f a = g a) :
    l.findSome? f = l.findSome? g := by
  induction l with
  | nil => rfl
  | cons a l ih =>
    rw [List.findSome?_cons, List.findSome?_cons, h a List.mem_cons_self,
      ih fun b hb => h b (List.mem_cons_of_mem a hb)]

theorem firstRule_verdict {f g : PolicyRule → Bool} {v : ℕ → Verdict} {d : ℕ → Decision}
    (hfg : ∀ r ∈ p.spec.rules, f r = g r) (hvd : ∀ i, toPolicyVerdict (v i) source target = ofDecision (d (i + 1))) :
    (p.spec.rules.zipIdx.findSome? (ruleVerdict f v)).map (toPolicyVerdict · source target) =
      ((firstRule p g).map d).map ofDecision := by
  unfold firstRule
  rw [List.map_findSome?, List.map_findSome?, List.map_findSome?]
  refine findSome_members fun e he => ?_
  have hr := hfg e.1 (List.fst_mem_of_mem_zipIdx he)
  simp only [Function.comp, ruleVerdict, hr]
  cases g e.1 with
  | true => exact congrArg some (hvd e.2)
  | false => rfl

theorem ofDecision_named {name reason : String} {allowed : Bool} (hn : dnsLabel name) :
    ofDecision { allowed := allowed, matchedPolicy := name, reason := reason } =
      { available := true, allowed := allowed, matchedPolicy := some name, reason := reason } := by
  have hne : name ≠ "" := by
    rintro rfl
    exact absurd hn (by decide)
  simp [ofDecision, hne]

theorem denyVerdict_agrees (hv : validatePolicy p = none) (hn : dnsLabel p.metadata.name) (ht : dnsLabel target) :
    (denyVerdict source target p).map (toPolicyVerdict · source target) = (denyOf source target p).map ofDecision := by
  unfold denyVerdict denyOf
  split
  · rfl
  · refine firstRule_verdict (fun r hr => ?_) fun i => ?_
    · rw [covers_iff hv ht hr]
      rfl
    · rw [ofDecision_named hn]
      rfl

theorem allowVerdict_agrees (hv : validatePolicy p = none) (hn : dnsLabel p.metadata.name) (ht : dnsLabel target) :
    (allowVerdict source target p).map (toPolicyVerdict · source target) =
      (allowOf source target p).map ofDecision := by
  unfold allowVerdict allowOf
  split
  · rfl
  · refine firstRule_verdict (fun r hr => ?_) fun i => ?_
    · rw [covers_iff hv ht hr]
      rfl
    · rw [ofDecision_named hn]
      rfl

theorem phase_agrees {f : NetworkPolicy → Option Verdict} {g : NetworkPolicy → Option Decision}
    (h : ∀ p ∈ policies, (f p).map (toPolicyVerdict · source target) = (g p).map ofDecision) :
    (policies.findSome? f).map (toPolicyVerdict · source target) = (policies.findSome? g).map ofDecision := by
  rw [List.map_findSome?, List.map_findSome?]
  exact findSome_members h

theorem targeted_agrees (hvalid : ∀ p ∈ policies, validatePolicy p = none) (ht : dnsLabel target) :
    (policies.any fun p => p.spec.action = .allow && p.spec.rules.any (covers target)) =
      allowlisted policies target := by
  rw [Bool.eq_iff_iff, allowlisted, List.any_eq_true, List.any_eq_true]
  refine exists_congr fun p => and_congr_right fun hp => ?_
  rw [Bool.and_eq_true, Bool.and_eq_true, List.any_eq_true, List.any_eq_true]
  refine and_congr_right fun _ => exists_congr fun r => and_congr_right fun hr => ?_
  rw [covers_iff (hvalid p hp) ht hr]

end Phases

/-- The browser's evaluator gives the server's answer: the same flag, policy and sentence. -/
theorem ui_evaluate_agrees (localeCompare : String → String → Int) (hcmp : OrdersLabels localeCompare)
    (policies : List NetworkPolicy) (hvalid : ∀ p ∈ policies, validatePolicy p = none)
    (hnames : ∀ p ∈ policies, dnsLabel p.metadata.name) (source target : String) (ht : dnsLabel target) :
    toPolicyVerdict (evaluate localeCompare policies source target) source target =
      ofDecision (Klite.evaluate policies source target) := by
  have hmem : ∀ p ∈ sortedByName policies, p ∈ policies := fun p hp => mem_sortedByName.mp hp
  have hdeny := phase_agrees (f := denyVerdict source target) (g := denyOf source target) fun p hp =>
    denyVerdict_agrees (hvalid p (hmem p hp)) (hnames p (hmem p hp)) ht
  have hallow := phase_agrees (f := allowVerdict source target) (g := allowOf source target) fun p hp =>
    allowVerdict_agrees (hvalid p (hmem p hp)) (hnames p (hmem p hp)) ht
  have htarget := targeted_agrees (fun p hp => hvalid p (hmem p hp)) ht
  unfold evaluate Klite.evaluate
  dsimp only
  rw [sort_agrees hcmp hnames, denyPhase_eq, allowPhase_eq, htarget]
  cases hd : (sortedByName policies).findSome? (denyVerdict source target) with
  | some v =>
    rw [hd, Option.map_some] at hdeny
    obtain ⟨d, hg, hvd⟩ := Option.map_eq_some_iff.mp hdeny.symm
    rw [hg]
    exact hvd.symm
  | none =>
    rw [hd, Option.map_none] at hdeny
    rw [Option.map_eq_none_iff.mp hdeny.symm]
    cases ha : (sortedByName policies).findSome? (allowVerdict source target) with
    | some v =>
      rw [ha, Option.map_some] at hallow
      obtain ⟨d, hg, hvd⟩ := Option.map_eq_some_iff.mp hallow.symm
      rw [hg]
      exact hvd.symm
    | none =>
      rw [ha, Option.map_none] at hallow
      rw [Option.map_eq_none_iff.mp hallow.symm]
      cases allowlisted (sortedByName policies) target <;> rfl

def byteCompare (a b : String) : Int := if a < b then -1 else if a = b then 0 else 1

theorem byteCompare_orders : OrdersLabels byteCompare := by
  intro a b _ _
  unfold byteCompare
  by_cases hlt : a < b
  · simp [hlt, hlt.ne]
  · by_cases heq : a = b <;> simp [hlt, heq]

def lockdown : NetworkPolicy where
  metadata := { name := "lockdown" }
  spec := { action := .deny, rules := [{ source := "*", target := "*", except := ["web"] }] }

def admitWeb : NetworkPolicy where
  metadata := { name := "admit-web" }
  spec := { action := .allow, rules := [{ source := "web", target := "db" }] }

theorem ui_evaluate_agrees_lockdown :
    toPolicyVerdict (evaluate byteCompare [lockdown, admitWeb] "web" "db") "web" "db" =
      ofDecision (Klite.evaluate [lockdown, admitWeb] "web" "db") :=
  ui_evaluate_agrees byteCompare byteCompare_orders [lockdown, admitWeb] (by decide) (by decide)
    "web" "db" (by decide)

end Klite.Ui
