import Klite.Controller.Rollout
import Klite.Store.Count

/-!
# The roles of a workload's instances

`classify` splits by role: every instance has one, and the READY ones are fresh or
retiring.
-/

namespace Klite
open Lib

variable {inst : Instance} {l : List Instance}

theorem mem_sortNewestFirst :
    inst ∈ sortNewestFirst l ↔ inst ∈ l := List.mem_insertionSort newerFirst

variable {hash : String} {drainingNodes : List String}

theorem mem_ofRole {r : Role} :
    inst ∈ ofRole hash drainingNodes r l ↔ inst ∈ l ∧ roleOf hash drainingNodes inst = r := by
  simp [ofRole]

theorem roleOf_doomed (hr : roleOf hash drainingNodes inst = .doomed) : inst.phase ≠ .ready := by
  intro he
  simp only [roleOf, he, if_true] at hr
  split at hr
  · cases hr
  · split at hr <;> cases hr

theorem roleOf_draining : roleOf hash drainingNodes inst = .draining ↔ inst.phase = .draining := by
  unfold roleOf
  constructor
  · intro hr
    by_contra hne
    rw [if_neg hne] at hr
    split at hr
    · cases hr
    · split at hr <;> cases hr
  · exact fun he => if_pos he

theorem roleOf_congr {d d' : List String} (h : ∀ n, n ∈ d ↔ n ∈ d') (inst : Instance) :
    roleOf hash d inst = roleOf hash d' inst := by
  unfold roleOf
  simp only [h]

theorem roleOf_retiring {i : Instance} (hr : roleOf hash drainingNodes i = .retiring) : i.phase = .ready := by
  unfold roleOf at hr
  split at hr
  · cases hr
  · split at hr
    · cases hr
    · split at hr
      · assumption
      · cases hr

theorem readyCount_zero (h : ∀ i ∈ l, i.phase ≠ .ready) : readyCount l = 0 := by
  unfold readyCount
  rw [List.countP_eq_zero]
  exact fun i hi => by simpa using h i hi

theorem readyCount_roles (hash : String) (drainingNodes : List String) (l : List Instance) :
    readyCount l = readyCount (ofRole hash drainingNodes .fresh l) +
      (ofRole hash drainingNodes .retiring l).length := by
  induction l with
  | nil => rfl
  | cons i l ih =>
    have hcons : ∀ l' : List Instance, readyCount (i :: l') = readyCount l' + one (i.phase = .ready) :=
      fun l' => List.countP_cons
    unfold ofRole at ih ⊢
    rw [hcons, ih]
    cases hr : roleOf hash drainingNodes i with
    | fresh =>
      simp only [List.filter_cons, hr, decide_true, if_true, hcons, reduceCtorEq, decide_false]
      simp only [if_false]
      omega
    | retiring =>
      have hp := roleOf_retiring hr
      simp only [List.filter_cons, hr, decide_true, if_true, reduceCtorEq, decide_false, List.length_cons]
      simp only [if_false, hp, decide_true, one, if_true]
      omega
    | doomed =>
      have hp := roleOf_doomed hr
      simp [hr, one, hp]
    | draining =>
      have hp := roleOf_draining.mp hr
      simp [hr, one, hp]

theorem readyCount_split (l : List Instance) (k : ℕ) :
    readyCount l = readyCount (l.take k) + readyCount (l.drop k) := by
  unfold readyCount
  rw [← List.countP_append, List.take_append_drop]

def readyOf (n : String) (i : Instance) : Bool := i.spec.workload = n && i.phase = .ready

theorem readyOf_mine {n : String} {i : Instance} (hn : i.spec.workload = n) :
    readyOf n i = decide (i.phase = .ready) := by
  simp [readyOf, hn]

def readyIn (w : World) (n : String) : ℕ := w.store.count .inst (readyOf n)

def hasRole (n hash : String) (drainingNodes : List String) (r : Role) (i : Instance) : Bool :=
  i.spec.workload = n && roleOf hash drainingNodes i = r

theorem length_ofRole {n hash : String} {d d' : List String} (h : ∀ m, m ∈ d' ↔ m ∈ d) (r : Role) (l : List Instance) :
    (ofRole hash d' r (l.filter fun i => i.spec.workload = n)).length = l.countP (hasRole n hash d r) := by
  unfold ofRole hasRole
  rw [List.filter_filter, ← List.countP_eq_length_filter]
  refine List.countP_congr fun i _ => ?_
  rw [roleOf_congr h i, Bool.and_comm]

theorem length_sortNewestFirst (l : List Instance) : (sortNewestFirst l).length = l.length :=
  List.length_insertionSort newerFirst l

theorem readyCount_sortNewestFirst (l : List Instance) : readyCount (sortNewestFirst l) = readyCount l :=
  (List.perm_insertionSort newerFirst l).countP_eq _

end Klite
