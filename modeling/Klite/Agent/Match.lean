import Klite.Agent.Reconcile
import Mathlib.Data.List.Induction

/-!
# Containers and the instances they belong to

`matchContainers` gives each name to the first container that has a claim to it.
-/

namespace Klite.Agent
open Lib

def RunningInstance.labels (ri : RunningInstance) : String × Uid × String :=
  (ri.instanceName, ri.instanceUID, ri.templateHash)

def Claimed (desired : Desired) (x : String × Uid × String) : Prop :=
  ∃ inst, desired.map[x.1]? = some inst ∧ inst.metadata.uid = x.2.1 ∧ inst.spec.templateHash = x.2.2

structure Sorted (D : Desired) (l : List RunningInstance) (m : Matched) : Prop where
  named : ∀ (n : String) (ri : RunningInstance), m.1[n]? = some ri → ri ∈ l ∧ ri.instanceName = n ∧ Claimed D ri.labels
  full : ∀ ri ∈ l, Claimed D ri.labels → ∃ r, m.1[ri.instanceName]? = some r
  orphan : ∀ ri ∈ m.2, ri ∈ l
  total : ∀ ri ∈ l, m.1[ri.instanceName]? = some ri ∨ ri ∈ m.2
  apart : l.Nodup → ∀ ri ∈ m.2, m.1[ri.instanceName]? ≠ some ri

section Match
variable {D : Desired} {l : List RunningInstance} {m : Matched}
variable {ri : RunningInstance}

theorem owns_iff {inst : Instance} :
    owns inst ri = true ↔ inst.metadata.uid = ri.labels.2.1 ∧ inst.spec.templateHash = ri.labels.2.2 := by
  unfold owns RunningInstance.labels
  simp only [Bool.and_eq_true, decide_eq_true_eq]
  exact ⟨fun h => ⟨h.1.symm, h.2.symm⟩, fun h => ⟨h.1.symm, h.2.symm⟩⟩

theorem matchOne_cases (D : Desired) (m : Matched) (ri : RunningInstance) :
    (m.1[ri.instanceName]? = none ∧ Claimed D ri.labels ∧ matchOne D m ri = (m.1.insert ri.instanceName ri, m.2)) ∨
    ((Claimed D ri.labels → ∃ r, m.1[ri.instanceName]? = some r) ∧ matchOne D m ri = (m.1, m.2 ++ [ri])) := by
  unfold matchOne
  cases hd : D.map[ri.instanceName]? with
  | none =>
    refine Or.inr ⟨?_, rfl⟩
    rintro ⟨inst, hi, -⟩
    rw [show D.map[ri.labels.1]? = none from hd] at hi
    cases hi
  | some inst =>
    cases hm : m.1[ri.instanceName]? with
    | some r => exact Or.inr ⟨fun _ => ⟨r, rfl⟩, rfl⟩
    | none =>
      dsimp only
      split
      · rename_i ho
        exact Or.inl ⟨rfl, ⟨inst, hd, owns_iff.mp ho⟩, rfl⟩
      · rename_i ho
        refine Or.inr ⟨?_, rfl⟩
        rintro ⟨inst', hi, hl⟩
        obtain rfl : inst = inst' := Option.mem_unique hd hi
        exact absurd (owns_iff.mpr hl) ho

theorem sorted_start (D : Desired) : Sorted D [] (∅, []) where
  named := by simp
  full := by simp
  orphan := by simp
  total := by simp
  apart := by simp

theorem sorted_matched (hs : Sorted D l m) (hfree : m.1[ri.instanceName]? = none) (hc : Claimed D ri.labels) :
    Sorted D (l ++ [ri]) (m.1.insert ri.instanceName ri, m.2) := by
  have hins : ∀ n : String, (m.1.insert ri.instanceName ri)[n]? = if ri.instanceName = n then some ri else m.1[n]? :=
    fun n => Table.get_insert _ _ _ _
  have hold : ∀ (n : String) (r : RunningInstance), m.1[n]? = some r → (m.1.insert ri.instanceName ri)[n]? = some r := by
    intro n r hr
    rw [hins, if_neg, hr]
    rintro rfl
    rw [hfree] at hr
    cases hr
  refine ⟨?_, ?_, ?_, ?_, ?_⟩
  · intro n r hr
    rw [hins] at hr
    split at hr
    · cases hr
      exact ⟨List.mem_append_right l List.mem_cons_self, ‹_›, hc⟩
    · obtain ⟨hmem, hrest⟩ := hs.named n r hr
      exact ⟨List.mem_append_left _ hmem, hrest⟩
  · intro r hr hcl
    rcases List.mem_append.mp hr with hr | hr
    · obtain ⟨r', hr'⟩ := hs.full r hr hcl
      exact ⟨r', hold _ _ hr'⟩
    · rw [List.mem_singleton.mp hr]
      exact ⟨ri, by rw [hins, if_pos rfl]⟩
  · exact fun r hr => List.mem_append_left _ (hs.orphan r hr)
  · intro r hr
    rcases List.mem_append.mp hr with hr | hr
    · exact (hs.total r hr).imp_left (hold _ _)
    · rw [List.mem_singleton.mp hr, hins, if_pos rfl]
      exact Or.inl rfl
  · intro hnd r hr hsome
    have hdisj := (List.nodup_append.mp hnd)
    rw [hins] at hsome
    split at hsome
    · cases hsome
      exact hdisj.2.2 ri (hs.orphan ri hr) ri List.mem_cons_self rfl
    · exact hs.apart hdisj.1 r hr hsome

theorem sorted_orphan (hs : Sorted D l m) (hc : Claimed D ri.labels → ∃ r, m.1[ri.instanceName]? = some r) :
    Sorted D (l ++ [ri]) (m.1, m.2 ++ [ri]) where
  named := by
    intro n r hr
    obtain ⟨hmem, hrest⟩ := hs.named n r hr
    exact ⟨List.mem_append_left _ hmem, hrest⟩
  full := by
    intro r hr hcl
    rcases List.mem_append.mp hr with hr | hr
    · exact hs.full r hr hcl
    · rw [List.mem_singleton.mp hr] at hcl ⊢
      exact hc hcl
  orphan := by
    intro r hr
    rcases List.mem_append.mp hr with hr | hr
    · exact List.mem_append_left _ (hs.orphan r hr)
    · exact List.mem_append_right _ hr
  total := by
    intro r hr
    rcases List.mem_append.mp hr with hr | hr
    · exact (hs.total r hr).imp_right (List.mem_append_left _)
    · exact Or.inr (List.mem_append_right _ hr)
  apart := by
    intro hnd r hr hsome
    have hdisj := (List.nodup_append.mp hnd)
    rcases List.mem_append.mp hr with hr | hr
    · exact hs.apart hdisj.1 r hr hsome
    · obtain rfl := List.mem_singleton.mp hr
      exact hdisj.2.2 r (hs.named _ r hsome).1 r List.mem_cons_self rfl

theorem sorted_match (D : Desired) (l : List RunningInstance) : Sorted D l (matchContainers D l) := by
  unfold matchContainers
  induction l using List.reverseRecOn with
  | nil => exact sorted_start D
  | append_singleton l ri ih =>
    rw [List.foldl_append, List.foldl_cons, List.foldl_nil]
    rcases matchOne_cases D (l.foldl (matchOne D) (∅, [])) ri with ⟨hfree, hc, he⟩ | ⟨hc, he⟩
    · rw [he]
      exact sorted_matched ih hfree hc
    · rw [he]
      exact sorted_orphan ih hc

def agrees (D : Desired) (n : String) (ri : RunningInstance) : Bool :=
  ri.instanceName = n && D.map[n]?.any fun inst => owns inst ri

variable {n : String}

theorem agrees_iff : agrees D n ri = true ↔ ri.instanceName = n ∧ Claimed D ri.labels := by
  unfold agrees Claimed
  rw [Bool.and_eq_true, decide_eq_true_eq, Option.any_eq_true]
  constructor
  · rintro ⟨rfl, inst, hi, ho⟩
    exact ⟨rfl, inst, hi, owns_iff.mp ho⟩
  · rintro ⟨rfl, inst, hi, hl⟩
    exact ⟨rfl, inst, hi, owns_iff.mpr hl⟩

theorem byName_first (D : Desired) (l : List RunningInstance) (n : String) :
    (matchContainers D l).1[n]? = l.find? (agrees D n) := by
  induction l using List.reverseRecOn with
  | nil => exact Std.ExtTreeMap.getElem?_empty
  | append_singleton l ri ih =>
    rw [List.find?_append, ← ih]
    have hstep : matchContainers D (l ++ [ri]) = matchOne D (matchContainers D l) ri := by
      unfold matchContainers
      rw [List.foldl_append, List.foldl_cons, List.foldl_nil]
    rw [hstep]
    rcases matchOne_cases D (matchContainers D l) ri with ⟨hfree, hc, he⟩ | ⟨hc, he⟩
    · rw [he, Table.get_insert]
      split
      · rename_i hn
        subst hn
        rw [hfree, Option.none_or, List.find?_cons_of_pos (agrees_iff.mpr ⟨rfl, hc⟩)]
      · rename_i hn
        rw [List.find?_cons_of_neg (fun ha => hn (agrees_iff.mp ha).1), List.find?_nil, Option.or_none]
    · rw [he]
      by_cases ha : agrees D n ri = true
      · obtain ⟨rfl, hcl⟩ := agrees_iff.mp ha
        obtain ⟨r, hr⟩ := hc hcl
        rw [hr, Option.some_or]
      · rw [List.find?_cons_of_neg ha, List.find?_nil, Option.or_none]

/-! ## Containers with distinct names -/

theorem list_names (d : Docker) : (d.list.map (·.instanceName)).Nodup := by
  unfold Docker.list
  rw [List.map_map]
  refine List.Nodup.map_on ?_ (Table.toList_nodup d.boxes)
  rintro ⟨i, b⟩ hi ⟨j, b'⟩ hj hn
  have hb := Table.mem_toList.mp hi
  have hb' := Table.mem_toList.mp hj
  obtain rfl := d.named i j b b' hb hb' hn
  obtain rfl := Option.mem_unique hb hb'
  rfl

theorem byName_some (h : (matchContainers D l).1[n]? = some ri) :
    ri ∈ l ∧ ri.instanceName = n ∧ Claimed D ri.labels := (sorted_match D l).named n ri h

theorem byName_labels {inst : Instance} (hi : D.map[n]? = some inst) (h : (matchContainers D l).1[n]? = some ri) :
    ri.labels = (boxOf inst).labels := by
  obtain ⟨-, rfl, inst', hi', hu, hh⟩ := byName_some h
  obtain rfl := Option.mem_unique hi hi'
  exact Prod.ext (D.keyed _ inst hi).symm (Prod.ext hu.symm hh.symm)

theorem byName_claimed (hl : (l.map (·.instanceName)).Nodup) (h : ri ∈ l) (hc : Claimed D ri.labels) :
    (matchContainers D l).1[ri.instanceName]? = some ri := by
  obtain ⟨r, hr⟩ := (sorted_match D l).full ri h hc
  obtain ⟨hmem, hn, -⟩ := byName_some hr
  obtain rfl : r = ri := List.inj_on_of_nodup_map hl hmem h hn
  exact hr

theorem orphan_unclaimed (hl : (l.map (·.instanceName)).Nodup) (h : ri ∈ (matchContainers D l).2) :
    ri ∈ l ∧ ¬ Claimed D ri.labels := by
  have hmem := (sorted_match D l).orphan ri h
  exact ⟨hmem, fun hc => (sorted_match D l).apart (List.Nodup.of_map _ hl) ri h (byName_claimed hl hmem hc)⟩

end Match

end Klite.Agent
