import Klite.Lib.Runs
import Mathlib.Logic.Function.Basic

/-!
# Leader election (internal/leader/leader.go)

Any number of klited processes are in `RunWhenLeader`. Of etcd's client it is assumed that
`Campaign` puts a key under the session's lease and waits until no key is left that was
created before it, that `Resign` deletes the key and `Close` revokes the lease. A lease may
expire at any time, and its holder hears of it later.
-/

namespace Klite.Leader
open Lib

/-- Leases of different processes differ. -/
structure Lease where
  owner : ℕ
  number : ℕ
  deriving DecidableEq

structure Key where
  lease : Lease
  createRevision : ℕ
  deriving DecidableEq

/-- Where a process stands in the loop. `fn` runs while it is leading or stopping. -/
inductive Stage where
  | standby
  | session (lease : Lease)
  | waiting (key : Key)
  | leading (key : Key)
  | stopping (key : Key)
  | resigning (key : Key)
  | closing (lease : Lease)
  | over

def Stage.key : Stage → Option Key
  | .waiting k | .leading k | .stopping k | .resigning k => some k
  | _ => none

def Stage.lease : Stage → Option Lease
  | .session l | .closing l => some l
  | st => st.key.map Key.lease

def Stage.runs : Stage → Option Key
  | .leading k | .stopping k => some k
  | _ => none

/-- `keys` has the election's keys by their create revisions. -/
structure Etcd where
  keys : ℕ → Option Lease := fun _ => none
  revision : ℕ := 0
  leases : ℕ := 0
  gone : List Lease := []

namespace Etcd
variable (e : Etcd)

def create (l : Lease) : Etcd :=
  { e with revision := e.revision + 1, keys := Function.update e.keys (e.revision + 1) (some l) }

def drop (gone : List Lease) (p : ℕ → Lease → Bool) : Etcd :=
  { e with gone := gone ++ e.gone, keys := fun r => (e.keys r).filter (p r) }

def delete (k : Key) : Etcd := e.drop [] fun r l => r ≠ k.createRevision ∨ l ≠ k.lease

def revoke (l : Lease) : Etcd := e.drop [l] fun _ l' => l' ≠ l

end Etcd

/-- A request may not reach etcd, or reach it and not be answered. -/
inductive Action where
  | newSession
  | put (reached answered : Bool)
  | win
  | cancel
  | finish
  | resign (reached : Bool)
  | close (reached : Bool)
  | exit

/- What `put`, `win`, `resign` and `close` do is assumed of etcd's concurrency package, not
translated from this repository. -/
def act (e : Etcd) (i : ℕ) : Action → Stage → Etcd × Stage
  | .newSession, .standby => ({ e with leases := e.leases + 1 }, .session ⟨i, e.leases⟩)
  | .put reached answered, .session l =>
    -- A lease that is gone takes no key.
    if reached ∧ l ∉ e.gone then (e.create l, if answered then .waiting ⟨l, e.revision + 1⟩ else .closing l)
    else (e, .closing l)
  -- `waitDeletes` looks for keys before its own, not for its own.
  | .win, .waiting k => (e, if ∀ r < k.createRevision, e.keys r = none then .leading k else .waiting k)
  -- The session is done, or `ctx` is.
  | .cancel, .leading k => (e, .stopping k)
  | .finish, .leading k | .finish, .stopping k => (e, .resigning k)
  -- A Campaign that fails while it waits resigns too, if `ctx` is done.
  | .resign reached, .waiting k | .resign reached, .resigning k => (if reached then e.delete k else e, .closing k.lease)
  | .close reached, .closing l => (if reached then e.revoke l else e, .standby)
  | .exit, _ => (e, .over)
  | _, st => (e, st)

structure Election where
  etcd : Etcd := {}
  stage : ℕ → Stage := fun _ => .standby

inductive Step where
  | act (i : ℕ) (a : Action)
  | expire (l : Lease)

def next (s : Election) : Step → Election
  | .act i a => ⟨(act s.etcd i a (s.stage i)).1, Function.update s.stage i (act s.etcd i a (s.stage i)).2⟩
  | .expire l => { s with etcd := s.etcd.revoke l }

/-! ### The oldest key leads -/

structure Fits (e : Etcd) (i : ℕ) (st : Stage) : Prop where
  own : ∀ l, st.lease = some l → l.owner = i
  held : ∀ k, st.key = some k → k.createRevision ≤ e.revision ∧ (k.lease ∉ e.gone → e.keys k.createRevision = some k.lease)
  first : ∀ k, st.runs = some k → ∀ r < k.createRevision, e.keys r = none

section Steps
variable {e : Etcd} {i : ℕ} {st : Stage} {k : Key}

theorem key_of_runs (h : st.runs = some k) : st.key = some k := by
  cases st <;> simp_all [Stage.runs, Stage.key]

theorem lease_of_key (h : st.key = some k) : st.lease = some k.lease := by
  cases st <;> simp_all [Stage.lease, Stage.key]

theorem fits_drop (h : Fits e i st) {gone : List Lease} {p : ℕ → Lease → Bool}
    (hp : ∀ k, st.key = some k → k.lease ∉ gone → p k.createRevision k.lease) : Fits (e.drop gone p) i st := by
  refine ⟨h.own, ?_, ?_⟩
  · intro k hk
    refine ⟨(h.held k hk).1, ?_⟩
    intro hl
    obtain ⟨hnew, hold⟩ := not_or.mp (mt List.mem_append.mpr hl)
    simp [Etcd.drop, (h.held k hk).2 hold, hp k hk hnew]
  · intro k hk r hr
    simp [Etcd.drop, h.first k hk r hr]

theorem fits_revoke (h : Fits e i st) (l : Lease) : Fits (e.revoke l) i st := by
  refine fits_drop h ?_
  intro k _ hk
  simpa using hk

/-- The new key comes after every other. -/
theorem fits_create (h : Fits e i st) (l : Lease) : Fits (e.create l) i st := by
  have hkeys : ∀ k, st.key = some k → ∀ r ≤ k.createRevision, (e.create l).keys r = e.keys r := by
    intro k hk r hr
    have hrev := (h.held k hk).1
    exact Function.update_of_ne (by omega) _ _
  refine ⟨h.own, ?_, ?_⟩
  · intro k hk
    rw [hkeys k hk _ (Nat.le_refl _)]
    exact ⟨Nat.le_succ_of_le (h.held k hk).1, (h.held k hk).2⟩
  · intro k hk r hr
    rw [hkeys k (key_of_runs hk) r (Nat.le_of_lt hr)]
    exact h.first k hk r hr

theorem fits_act_self (h : Fits e i st) (a : Action) : Fits (act e i a st).1 i (act e i a st).2 := by
  unfold act
  split
  · exact ⟨fun l hl => by cases hl; rfl, nofun, nofun⟩
  · rename_i reached answered l
    have hclosing : ∀ e', Fits e' i (.closing l) := fun e' => ⟨h.own, nofun, nofun⟩
    split
    · cases answered with
      | false => exact hclosing _
      | true =>
        refine ⟨h.own, ?_, nofun⟩
        rintro k ⟨⟩
        exact ⟨Nat.le_refl _, fun _ => Function.update_self ..⟩
    · exact hclosing e
  · dsimp only
    split
    · rename_i hfirst
      refine ⟨h.own, h.held, ?_⟩
      rintro k ⟨⟩
      exact hfirst
    · exact h
  · exact ⟨h.own, h.held, h.first⟩
  · exact ⟨h.own, h.held, nofun⟩
  · exact ⟨h.own, h.held, nofun⟩
  · exact ⟨h.own, nofun, nofun⟩
  · exact ⟨h.own, nofun, nofun⟩
  · exact ⟨nofun, nofun, nofun⟩
  · exact ⟨nofun, nofun, nofun⟩
  · exact h

/-- What a process does to its own key and its own lease leaves the others alone. -/
theorem fits_act_other (h : Fits e i st) (a : Action) {j : ℕ} (hj : j ≠ i) {st' : Stage} (h' : Fits e j st') :
    Fits (act e i a st).1 j st' := by
  have hdelete : ∀ k, st.lease = some k.lease → Fits (e.delete k) j st' := by
    intro k hk
    refine fits_drop h' ?_
    intro k' hk' _
    have hne : k'.lease ≠ k.lease := fun he =>
      hj ((h'.own _ (lease_of_key hk')).symm.trans ((congrArg Lease.owner he).trans (h.own _ hk)))
    simp [hne]
  unfold act
  split
  · exact ⟨h'.own, h'.held, h'.first⟩
  · split
    · exact fits_create h' _
    · exact h'
  · exact h'
  · exact h'
  · exact h'
  · exact h'
  · rename_i k
    dsimp only
    split
    · exact hdelete k rfl
    · exact h'
  · rename_i k
    dsimp only
    split
    · exact hdelete k rfl
    · exact h'
  · dsimp only
    split
    · exact fits_revoke h' _
    · exact h'
  · exact h'
  · exact h'

end Steps

def Ordered (s : Election) : Prop := ∀ i, Fits s.etcd i (s.stage i)

theorem ordered_next (s : Election) (l : Step) (h : Ordered s) : Ordered (next s l) := by
  intro j
  cases l with
  | expire l => exact fits_revoke (h j) l
  | act i a =>
    by_cases hj : j = i
    · subst hj
      simpa [next] using fits_act_self (h j) a
    · simpa [next, hj] using fits_act_other (h i) a hj (h j)

theorem ordered_runs (ls : List Step) : Ordered (runs next {} ls) := by
  have hstart : Ordered {} := by
    intro i
    constructor <;> simp [Stage.lease, Stage.key, Stage.runs]
  exact List.foldlRecOn ls next hstart fun s h l _ => ordered_next s l h

/-- In every interleaving a process that runs `fn` has the oldest key of the election as long as its lease lives, and
when two processes run `fn` at once, one of them has lost its lease and not stopped yet. -/
theorem one_leader (ls : List Step) :
    let s := runs next {} ls
    (∀ i k, (s.stage i).runs = some k → k.lease ∉ s.etcd.gone →
      s.etcd.keys k.createRevision = some k.lease ∧ ∀ r < k.createRevision, s.etcd.keys r = none) ∧
    ∀ i j k k', (s.stage i).runs = some k → (s.stage j).runs = some k' → i ≠ j →
      k.lease ∈ s.etcd.gone ∨ k'.lease ∈ s.etcd.gone := by
  intro s
  have ho : Ordered s := ordered_runs ls
  have hheld : ∀ i k, (s.stage i).runs = some k → k.lease ∉ s.etcd.gone → s.etcd.keys k.createRevision = some k.lease :=
    fun i k hk => ((ho i).held k (key_of_runs hk)).2
  refine ⟨fun i k hk hl => ⟨hheld i k hk hl, (ho i).first k hk⟩, ?_⟩
  intro i j k k' hi hj hij
  by_contra hlive
  obtain ⟨hk, hk'⟩ := not_or.mp hlive
  have hle : ∀ i j k k', (s.stage i).runs = some k → (s.stage j).runs = some k' → k'.lease ∉ s.etcd.gone →
      k.createRevision ≤ k'.createRevision := by
    intro i j k k' hi hj hl
    by_contra hlt
    have hnone := (ho i).first k hi _ (Nat.not_le.mp hlt)
    rw [hheld j k' hj hl] at hnone
    cases hnone
  have hrev : k.createRevision = k'.createRevision := Nat.le_antisymm (hle i j k k' hi hj hk') (hle j i k' k hj hi hk)
  have hlease : some k.lease = some k'.lease := by
    rw [← hheld i k hi hk, ← hheld j k' hj hk', hrev]
  have howner : ∀ i k, (s.stage i).runs = some k → k.lease.owner = i := fun i k hk => (ho i).own _ (lease_of_key (key_of_runs hk))
  exact hij ((howner i k hi).symm.trans ((congrArg Lease.owner (Option.some.inj hlease)).trans (howner j k' hj)))

def enter (i : ℕ) : List Step := [.act i .newSession, .act i (.put true true), .act i .win]

/-- The first process leads and has not heard yet that its lease has expired when the second one wins. -/
theorem one_leader_overlap :
    (⟨0, 0⟩ : Lease) ∈ (runs next {} (enter 0 ++ enter 1 ++ [.expire ⟨0, 0⟩, .act 1 .win])).etcd.gone := by
  have hone := (one_leader (enter 0 ++ enter 1 ++ [.expire ⟨0, 0⟩, .act 1 .win])).2
  exact (hone 0 1 ⟨⟨0, 0⟩, 1⟩ ⟨⟨1, 1⟩, 2⟩ (by decide) (by decide) (by decide)).resolve_right (by decide)

end Klite.Leader
