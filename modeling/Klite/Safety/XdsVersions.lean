import Mathlib.Data.List.Induction
import Klite.Controller.EndpointsSpec
import Klite.Xds.BuilderSpec
import Klite.Xds.Cache

/-!
# xDS versions on two replicas

A replica numbers its own changing passes.
-/

namespace Klite
open Lib

section Pass
variable {e : Engine} {node : String}

def served (e : Engine) (node : String) : Option Cached :=
  let snap := (e.snapshot node).getD {}
  match buildSnapshot node (toString snap.revision) snap.net with
  | .ok x => some ⟨snap.net, x⟩
  | .error _ => none

theorem get_onChange (cache : XdsCache) (n : String) :
    (onChange e cache n)[node]? = if n = node then (served e node).or cache[node]? else cache[node]? := by
  unfold onChange served setNodeSnapshot
  dsimp only
  by_cases hn : n = node
  · subst hn
    rw [if_pos rfl]
    cases buildSnapshot n (toString ((e.snapshot n).getD {}).revision) ((e.snapshot n).getD {}).net with
    | ok x => simp [Except.map]
    | error err => simp [Except.map]
  · rw [if_neg hn]
    cases buildSnapshot n (toString ((e.snapshot n).getD {}).revision) ((e.snapshot n).getD {}).net with
    | ok x =>
      show (cache.insert n _)[node]? = _
      rw [Table.get_insert, if_neg hn]
    | error err => rfl

theorem get_onChanges (cache : XdsCache) (l : List String) : (l.foldl (onChange e) cache)[node]? =
      if node ∈ l then (served e node).or cache[node]? else cache[node]? := by
  induction l generalizing cache with
  | nil => rfl
  | cons n l ih =>
    rw [List.foldl_cons, ih, get_onChange]
    by_cases hn : n = node
    · subst hn
      cases served e n <;> simp
    · simp [hn, Ne.symm hn]

theorem get_onRemoves (cache : XdsCache) (l : List String) {c : Cached}
    (h : (l.foldl onRemove cache)[node]? = some c) : cache[node]? = some c := by
  induction l generalizing cache with
  | nil => exact h
  | cons n l ih =>
    have he := ih _ h
    exact (Table.get_of_erase he).2

end Pass

section Replica
variable {r : Replica} {s : Store} {node : String} {net : NetDesired}

/- The pass finds the node's content changed, to `net`, and `BuildSnapshot` accepts it. -/
structure Rebuilds (r : Replica) (s : Store) (node : String) (net : NetDesired) : Prop where
  change : ∃ snap, (r.engine.next (buildAll (inputsAt s)))[node]? = some snap ∧
    r.engine.unchanged node snap = false ∧ snap.net = net
  accepted : ∃ snap, buildSnapshot node "" net = .ok snap

theorem buildSnapshot_version (v' : String) {v : String} {snap : XdsSnapshot} (h : buildSnapshot node v net = .ok snap) :
    buildSnapshot node v' net = .ok { snap with version := v' } ∧ snap.version = v := by
  unfold buildSnapshot at h ⊢
  split at h
  · cases h
  · dsimp only at h
    split at h
    · rename_i hc
      cases h
      exact ⟨if_pos hc, rfl⟩
    · cases h

theorem cache_rebuilt (h : Rebuilds r s node net) : ∃ c,
    (r.recompute (.ok (inputsAt s))).cache[node]? = some c ∧ c.net = net ∧
      c.snapshot.version = toString (r.engine.version + 1) := by
  obtain ⟨⟨snap, hg, hu, rfl⟩, x, hx⟩ := h
  have hb := (buildSnapshot_version (toString (r.engine.version + 1)) hx).1
  refine ⟨⟨snap.net, { x with version := toString (r.engine.version + 1) }⟩, ?_, rfl, rfl⟩
  have hserved : served (r.engine.store (buildAll (inputsAt s))) node =
      some ⟨snap.net, { x with version := toString (r.engine.version + 1) }⟩ := by
    unfold served
    rw [store_snapshot hg hu]
    dsimp only [Option.getD_some]
    rw [hb]
  unfold Replica.recompute
  dsimp only
  rw [get_onChanges, if_pos (mem_changed.mpr ⟨snap, hg, hu⟩), hserved]
  rfl

theorem cache_recompute {c : Cached} (h : (r.recompute (.ok (inputsAt s))).cache[node]? = some c) :
    r.cache[node]? = some c ∨ (Rebuilds r s node c.net ∧ c.snapshot.version = toString (r.engine.version + 1)) := by
  unfold Replica.recompute at h
  dsimp only at h
  rw [get_onChanges] at h
  split at h
  · rename_i hm
    obtain ⟨snap, hg, hu⟩ := mem_changed.mp hm
    unfold served at h
    rw [store_snapshot hg hu] at h
    dsimp only [Option.getD_some] at h
    cases hb : buildSnapshot node (toString (r.engine.version + 1)) snap.net with
    | error err =>
      rw [hb] at h
      exact Or.inl (get_onRemoves _ _ h)
    | ok x =>
      rw [hb] at h
      cases h
      have hv := buildSnapshot_version "" hb
      exact Or.inr ⟨⟨⟨snap, hg, hu, rfl⟩, _, hv.1⟩, hv.2⟩
  · exact Or.inl (get_onRemoves _ _ h)

end Replica

section Runs
variable {node : String} {net : NetDesired} {states states' : List Store}

def countChanges : Replica → List Store → ℕ
  | _, [] => 0
  | r, s :: ss => one (r.engine.changed (buildAll (inputsAt s)) ≠ []) +
      countChanges (r.recompute (.ok (inputsAt s))) ss

/- The `k`-th pass that changes anything rebuilds the node. -/
def Rebuilt (states : List Store) (k : ℕ) (node : String) (net : NetDesired) : Prop :=
  ∃ before s rest, states = before ++ s :: rest ∧ countChanges {} (before ++ [s]) = k ∧
    Rebuilds (Replica.after before) s node net

theorem after_append (states : List Store) (s : Store) :
    Replica.after (states ++ [s]) = (Replica.after states).recompute (.ok (inputsAt s)) := List.foldl_append

theorem version_counts (r : Replica) (states : List Store) :
    (states.foldl (fun r s => r.recompute (.ok (inputsAt s))) r).engine.version =
      r.engine.version + countChanges r states := by
  induction states generalizing r with
  | nil => rfl
  | cons s ss ih =>
    have hv : (r.recompute (.ok (inputsAt s))).engine.version =
        r.engine.version + one (r.engine.changed (buildAll (inputsAt s)) ≠ []) := by
      show r.engine.nextVersion (buildAll (inputsAt s)) = _
      unfold Engine.nextVersion one
      split <;> simp_all
    rw [List.foldl_cons, ih, hv, countChanges, Nat.add_assoc]

theorem rebuilds_version {before : List Store} {s : Store} (h : Rebuilds (Replica.after before) s node net) :
    (Replica.after before).engine.version + 1 = countChanges {} (before ++ [s]) := by
  have hafter := version_counts {} (before ++ [s])
  obtain ⟨⟨snap, hg, hu, -⟩, -⟩ := h
  have hne := List.ne_nil_of_mem (mem_changed.mpr ⟨snap, hg, hu⟩)
  rw [show ((before ++ [s]).foldl (fun r s => r.recompute (.ok (inputsAt s))) {}) =
    Replica.after (before ++ [s]) from rfl, after_append] at hafter
  have hnext : ((Replica.after before).recompute (.ok (inputsAt s))).engine.version =
      (Replica.after before).engine.version + 1 := if_neg hne
  rw [← hnext, hafter]
  exact Nat.zero_add _

theorem rebuilt_mono (h : states <+: states') {k : ℕ} (hr : Rebuilt states k node net) :
    Rebuilt states' k node net := by
  obtain ⟨before, s, rest, rfl, hk, hreb⟩ := hr
  obtain ⟨tail, rfl⟩ := h
  exact ⟨before, s, rest ++ tail, by rw [List.append_assoc]; rfl, hk, hreb⟩

theorem served_rebuilt {c : Cached} (h : (Replica.after states).cache[node]? = some c) :
    ∃ k, Rebuilt states k node c.net ∧ c.snapshot.version = toString k := by
  induction states using List.reverseRecOn with
  | nil => simp [Replica.after] at h
  | append_singleton before s ih =>
    rw [after_append] at h
    rcases cache_recompute h with hold | ⟨hreb, hv⟩
    · obtain ⟨k, hk, hv⟩ := ih hold
      exact ⟨k, rebuilt_mono (List.prefix_append _ _) hk, hv⟩
    · rw [rebuilds_version hreb] at hv
      exact ⟨_, ⟨before, s, [], rfl, rfl, hreb⟩, hv⟩

theorem rebuilt_served {k : ℕ} (h : Rebuilt states k node net) :
    ∃ before, before <+: states ∧ ∃ c, (Replica.after before).cache[node]? = some c ∧ c.net = net ∧
      c.snapshot.version = toString k := by
  obtain ⟨before, s, rest, rfl, rfl, hreb⟩ := h
  obtain ⟨c, hc, hn, hv⟩ := cache_rebuilt hreb
  rw [rebuilds_version hreb] at hv
  refine ⟨before ++ [s], ⟨rest, by simp⟩, c, ?_, hn, hv⟩
  rw [after_append]
  exact hc

end Runs

-- Two replicas that serve the node under one version serve one `NetDesired`.
def VersionsAgree (node : String) (r r' : Replica) : Prop :=
  ∀ c c', r.cache[node]? = some c → r'.cache[node]? = some c' → c.snapshot.version = c'.snapshot.version →
    c.net = c'.net

/-- At every moment of two replicas that recompute at their own store states the versions
agree, if and only if passes with the same number that both rebuild the node, counting the
changing passes of each replica, built the same `NetDesired` for it. -/
theorem versions_agree_iff (xs ys : List Store) (node : String) :
    (∀ xs' ys', xs' <+: xs → ys' <+: ys → VersionsAgree node (Replica.after xs') (Replica.after ys')) ↔
    ∀ k net net', Rebuilt xs k node net → Rebuilt ys k node net' → net = net' := by
  constructor
  · intro h k net net' hx hy
    obtain ⟨xs', hxs, c, hc, rfl, hv⟩ := rebuilt_served hx
    obtain ⟨ys', hys, c', hc', rfl, hv'⟩ := rebuilt_served hy
    exact h xs' ys' hxs hys c c' hc hc' (hv.trans hv'.symm)
  · intro h xs' ys' hxs hys c c' hc hc' hv
    obtain ⟨k, hk, hkv⟩ := served_rebuilt hc
    obtain ⟨k', hk', hkv'⟩ := served_rebuilt hc'
    obtain rfl : k = k' := toString_index (hkv.symm.trans (hv.trans hkv'))
    exact h k c.net c'.net (rebuilt_mono hxs hk) (rebuilt_mono hys hk')

section Collision

def openStore : Store :=
  (((Store.empty.put 7 .node { metadata := { name := "a" } } revCreate).2.put 7 .service
    { metadata := { name := "api" }, spec := { port := 80, targetPort := 8080 } } revCreate).2.put 7
    .vipAllocation { metadata := { name := "api.a" }, service := "api", node := "a", vip := "10.45.0.1" }
    revCreate).2

def closedStore : Store :=
  (openStore.put 7 .networkPolicy
    { metadata := { name := "closed" }, spec := { action := .deny, rules := [{ source := "*", target := "*" }] } }
    revCreate).2

theorem cached_of_check (r : Replica) (node v : String) (k : ℕ)
    (h : r.cache[node]?.map (fun c => (c.snapshot.version, c.net.policies.length)) = some (v, k)) :
    ∃ c, r.cache[node]? = some c ∧ c.snapshot.version = v ∧ c.net.policies.length = k := by
  obtain ⟨c, hc, he⟩ := Option.map_eq_some_iff.mp h
  obtain ⟨hv, hk⟩ := Prod.mk.inj he
  exact ⟨c, hc, hv, hk⟩

-- One replica recomputed before the policy came, the other started after it.
theorem versions_collide :
    [openStore].Sublist [openStore, closedStore] ∧ [closedStore].Sublist [openStore, closedStore] ∧
    ¬ VersionsAgree "a" (Replica.after [openStore]) (Replica.after [closedStore]) := by
  refine ⟨by simp, by simp, fun h => ?_⟩
  obtain ⟨c, hc, hv, hk⟩ := cached_of_check (Replica.after [openStore]) "a" "1" 0 (by decide +kernel)
  obtain ⟨c', hc', hv', hk'⟩ := cached_of_check (Replica.after [closedStore]) "a" "1" 1
    (by decide +kernel)
  rw [h c c' hc hc' (hv.trans hv'.symm), hk'] at hk
  cases hk

end Collision

end Klite
