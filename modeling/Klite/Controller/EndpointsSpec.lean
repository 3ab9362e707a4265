import Klite.Controller.Endpoints

/-!
# What a pass of the engine does to a node
-/

namespace Klite
open Lib

def NodeSnapshot.content (s : NodeSnapshot) : List Instance × NetDesired := (s.instances, s.net)

@[simp] theorem content_revision (s : NodeSnapshot) (r : ℕ) : NodeSnapshot.content { s with revision := r } = s.content := rfl

theorem snapshotEqual_iff {a b : NodeSnapshot} : snapshotEqual a b = true ↔ a.content = b.content := by
  simp [snapshotEqual, NodeSnapshot.content]

def Engine.current (e : Engine) (node : String) : NodeSnapshot := e.nodes[node]?.getD {}

variable {e : Engine}

theorem snapshot_ready (h : e.ready) (node : String) : e.snapshot node = some (e.current node) := by
  simp [Engine.snapshot, Engine.current, h]

variable {snap : NodeSnapshot}

theorem snapshot_current {node : String} (h : e.snapshot node = some snap) : snap = e.current node ∧ e.ready := by
  unfold Engine.snapshot at h
  split at h
  · cases h
  · rename_i hr
    exact ⟨(Option.some.inj h).symm, by simpa using hr⟩

section Pass
variable {e : Engine} {built : Snapshots} {node : String}

theorem mem_changed : node ∈ e.changed built ↔
    ∃ snap, (e.next built)[node]? = some snap ∧ e.unchanged node snap = false := by
  unfold Engine.changed
  constructor
  · intro h
    obtain ⟨⟨n, snap⟩, hm, rfl⟩ := List.mem_map.mp h
    obtain ⟨hm, hu⟩ := List.mem_filter.mp hm
    exact ⟨snap, Table.mem_toList.mp hm, by simpa using hu⟩
  · rintro ⟨snap, hg, hu⟩
    exact List.mem_map.mpr ⟨(node, snap), List.mem_filter.mpr ⟨Table.mem_toList.mpr hg, by simp [hu]⟩, rfl⟩

theorem store_get : (e.store built).nodes[node]? = (e.next built)[node]?.map fun snap => { snap with
      revision := if e.unchanged node snap then (e.nodes[node]?.getD {}).revision else e.nextVersion built } := by
  unfold Engine.store
  dsimp only
  rw [Std.ExtTreeMap.getElem?_map]

theorem version_changed (h : node ∈ e.changed built) : e.nextVersion built = e.version + 1 :=
  if_neg (List.ne_nil_of_mem h)

theorem store_snapshot (hg : (e.next built)[node]? = some snap) (hu : e.unchanged node snap = false) :
    (e.store built).snapshot node = some { snap with revision := e.version + 1 } := by
  have hv := version_changed (mem_changed.mpr ⟨snap, hg, hu⟩)
  have hnodes : (e.store built).nodes[node]? = some { snap with revision := e.version + 1 } := by
    rw [store_get, hg, Option.map_some, hu, hv]
    rfl
  unfold Engine.snapshot
  rw [hnodes]
  rfl

theorem next_none (h : (e.next built)[node]? = none) : built[node]? = none ∧
    (e.current node).content = NodeSnapshot.content {} := by
  unfold Engine.next at h
  have hdecayed : ∀ v, (node, v) ∉ e.decayed built := by
    intro v hv
    obtain ⟨v', hv'⟩ := Table.get_fill_isSome (t := built) hv
    rw [h] at hv'
    cases hv'
  rw [Table.get_fill_absent hdecayed] at h
  refine ⟨h, ?_⟩
  cases hg : e.nodes[node]? with
  | none => simp [Engine.current, hg]
  | some prev =>
    have hnot := hdecayed {}
    simp only [Engine.decayed, List.mem_map, List.mem_filter] at hnot
    by_contra hne
    apply hnot
    refine ⟨(node, prev), ⟨Table.mem_toList.mpr hg, ?_⟩, rfl⟩
    have hcont : built.contains node = false := by
      rw [Std.ExtTreeMap.contains_eq_isSome_getElem?, h]
      rfl
    have hcur : (e.current node) = prev := by simp [Engine.current, hg]
    have heq : snapshotEqual prev {} = false := by
      rw [← Bool.not_eq_true, snapshotEqual_iff, ← hcur]
      exact hne
    simp [hcont, heq]

theorem store_cases (e : Engine) (built : Snapshots) (node : String) :
    (node ∈ e.changed built ∧ ((e.store built).current node).revision = e.version + 1 ∧
      (e.store built).version = e.version + 1 ∧ (e.store built).nodes[node]?.isSome ∧
      (e.nodes[node]? = none ∨ ((e.store built).current node).content ≠ (e.current node).content)) ∨
    (e.nodes[node]?.isSome ∧ (e.store built).nodes[node]?.isSome ∧
      ((e.store built).current node).revision = (e.current node).revision ∧
      ((e.store built).current node).content = (e.current node).content) ∨
    ((e.store built).nodes[node]? = none ∧ built[node]? = none ∧
      (e.current node).content = NodeSnapshot.content {}) := by
  have hget : (e.store built).nodes[node]? = (e.next built)[node]?.map _ := store_get
  cases hn : (e.next built)[node]? with
  | none =>
    rw [hn] at hget
    exact Or.inr (Or.inr ⟨hget, next_none hn⟩)
  | some snap =>
    rw [hn, Option.map_some] at hget
    cases hu : e.unchanged node snap with
    | false =>
      have hc := mem_changed.mpr ⟨snap, hn, hu⟩
      have hv := version_changed hc
      simp only [hu, hv] at hget
      refine Or.inl ⟨hc, by simp [Engine.current, hget], hv, by simp [hget], ?_⟩
      cases hp : e.nodes[node]? with
      | none => exact Or.inl rfl
      | some prev =>
        simp only [Engine.unchanged, hp] at hu
        have hne : ¬ prev.content = snap.content := by
          rw [← snapshotEqual_iff, hu]
          simp
        refine Or.inr ?_
        simp only [Engine.current, hget, hp, Option.getD_some]
        exact fun he => hne he.symm
    | true =>
      simp only [hu, if_true] at hget
      cases hp : e.nodes[node]? with
      | none => simp [Engine.unchanged, hp] at hu
      | some prev =>
        simp only [Engine.unchanged, hp] at hu
        have heq : prev.content = snap.content := snapshotEqual_iff.mp hu
        refine Or.inr (Or.inl ⟨by simp, by simp [hget], ?_, ?_⟩)
        · simp [Engine.current, hget, hp]
        · simp only [Engine.current, hget, hp, Option.getD_some]
          exact heq.symm

theorem store_current_none (h : (e.store built).nodes[node]? = none) : (e.store built).current node = {} := by
  simp [Engine.current, h]

end Pass

def Versioned (e : Engine) : Prop :=
  ∀ (node : String) (s : NodeSnapshot), e.nodes[node]? = some s → e.ready ∧ 0 < s.revision ∧ s.revision ≤ e.version

theorem versioned_empty : Versioned {} := by
  intro node s h
  simp at h

theorem version_le (e : Engine) (built : Snapshots) : e.version ≤ (e.store built).version := by
  show e.version ≤ e.nextVersion built
  unfold Engine.nextVersion
  split <;> omega

theorem versioned_store (built : Snapshots) (h : Versioned e) : Versioned (e.store built) := by
  intro node s hs
  have hcur : (e.store built).current node = s := by simp [Engine.current, hs]
  have hle := version_le e built
  rcases store_cases e built node with ⟨-, hrev, hv, -, -⟩ | ⟨hp, -, hrev, -⟩ | ⟨hnone, -, -⟩
  · rw [hcur] at hrev
    exact ⟨rfl, by omega, by omega⟩
  · obtain ⟨prev, hprev⟩ := Option.isSome_iff_exists.mp hp
    have hold := h node prev hprev
    have hcur' : e.current node = prev := by simp [Engine.current, hprev]
    rw [hcur, hcur'] at hrev
    exact ⟨rfl, by omega, by omega⟩
  · rw [hs] at hnone
    cases hnone

/- A snapshot of the node that the engine served at some time: revision 0 is the empty one, and
it is still the content under its revision. -/
structure Known (e : Engine) (node : String) (snap : NodeSnapshot) : Prop where
  le : snap.revision ≤ e.version
  zero : snap.revision = 0 → snap.content = NodeSnapshot.content {}
  same : (e.current node).revision = snap.revision → snap.content = (e.current node).content

theorem known_current (h : Versioned e) (node : String) : Known e node (e.current node) := by
  cases hg : e.nodes[node]? with
  | none =>
    have hcur : e.current node = {} := by simp [Engine.current, hg]
    rw [hcur]
    exact ⟨Nat.zero_le _, fun _ => rfl, fun _ => by rw [hcur]⟩
  | some s =>
    have hcur : e.current node = s := by simp [Engine.current, hg]
    have hs := h node s hg
    rw [hcur]
    exact ⟨hs.2.2, fun h0 => by omega, fun _ => by rw [hcur]⟩

/-- Within one engine life a revision of a node stands for one content. -/
theorem known_store {node : String} (built : Snapshots) (h : Known e node snap) :
    Known (e.store built) node snap := by
  have hle := version_le e built
  have hsle := h.le
  refine ⟨by omega, h.zero, ?_⟩
  intro hrev
  rcases store_cases e built node with ⟨-, hnew, -, -, -⟩ | ⟨-, -, hold, hcont⟩ | ⟨hnone, -, -⟩
  · omega
  · rw [hcont]
    exact h.same (hold.symm.trans hrev)
  · rw [store_current_none hnone] at hrev ⊢
    exact h.zero hrev.symm

end Klite
