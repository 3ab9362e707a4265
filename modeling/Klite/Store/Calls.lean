import Klite.Store.Etcd

/-!
# Store calls as the steps of a program

A call may be lost before it reaches etcd, and a write may commit while its
answer is lost; both surface as an error that is none of the store's sentinels.
Clock reads, the random name suffix and the messages of a streaming RPC are calls
too: they touch no object.
-/

namespace Klite
open Lib

inductive Op where
  | get (k : Kind) (name : String)
  | list (k : Kind)
  | put (k : Kind) (o : k.Obj) (expectedRev : Int)
  | delete (k : Kind) (name : String)
  | deleteIfRevision (k : Kind) (name : String) (expectedRev : Int)
  | now
  | hexSuffix
  | send (message : String)
  | pause

abbrev Res : Op → Type
  | .get k _ => Except StoreErr (k.Obj × Int)
  | .list k => Except StoreErr (List k.Obj × Int)
  | .put _ _ _ => Except StoreErr Int
  | .delete _ _ => Except StoreErr Unit
  | .deleteIfRevision _ _ _ => Except StoreErr Unit
  | .now => Int
  | .hexSuffix => String
  | .send _ => Bool
  | .pause => Bool

inductive Fault where
  | none
  | lost
  | unacked
  deriving DecidableEq

structure Choice where
  fault : Fault := .none
  suffix : String := ""

structure World where
  store : Store
  now : Int

-- The conversion to Go's int32.
def int32 (x : Int) : Int := Int.bmod x 4294967296

theorem int32_self {x : Int} (h : -2147483648 ≤ x) (h' : x < 2147483648) : int32 x = x := by
  unfold int32
  exact Int.bmod_eq_of_le (by omega) (by omega)

theorem int32_val (x : Int) : int32 x = x - 4294967296 * ((x + 2147483648) / 4294967296) := by
  unfold int32
  rw [Int.bmod_def]
  omega

def second : Int := 1000000000

def World.unix (w : World) : Int := w.now / second

def answer {α : Type} (c : Choice) (w : World) (x : Except StoreErr α × Store) : Except StoreErr α × World :=
  match c.fault with
  | .none => (x.1, { w with store := x.2 })
  | .lost => (.error .lost, w)
  | .unacked => (.error .lost, { w with store := x.2 })

def exec (c : Choice) : (op : Op) → World → Res op × World
  | .get k n, w => (if c.fault = .none then w.store.get k n else .error .lost, w)
  | .list k, w =>
      (if c.fault = .none then .ok (w.store.listing k, w.store.rev) else .error .lost, w)
  | .put k o e, w => answer c w (w.store.put w.unix k o e)
  | .delete k n, w => answer c w (w.store.delete k n)
  | .deleteIfRevision k n e, w => answer c w (w.store.deleteIfRevision k n e)
  | .now, w => (w.now, w)
  | .hexSuffix, w => (c.suffix, w)
  -- A message to a streaming client, and the wait for the next poll: a fault is a broken stream.
  | .send _, w => (c.fault = .none, w)
  | .pause, w => (c.fault = .none, w)

/- Revisions only grow and are never used twice: what a later store holds at an
old revision, the earlier store held already. -/
structure Evolves (s s' : Store) : Prop where
  rev_le : s.rev ≤ s'.rev
  uids_le : s.uids ≤ s'.uids
  old : ∀ (k : Kind) (n : String) (o : k.Obj) (r : Int), (s'.tbl k)[n]? = some (o, r) →
    r ≤ s.rev → (s.tbl k)[n]? = some (o, r)

theorem evolves_refl (s : Store) : Evolves s s := ⟨le_refl _, le_refl _, fun _ _ _ _ h _ => h⟩

theorem evolves_trans {a b c : Store} (hab : Evolves a b) (hbc : Evolves b c) : Evolves a c := by
  refine ⟨hab.rev_le.trans hbc.rev_le, hab.uids_le.trans hbc.uids_le, ?_⟩
  intro k n o r h hr
  exact hab.old k n o r (hbc.old k n o r h (hr.trans hab.rev_le)) hr

theorem evolves_write (s : Store) (k : Kind) (o : k.Obj) (uids : Uid)
    (hv : validName (metaOf o).name) (hu : s.uids ≤ uids) : Evolves s (s.write k o uids hv) := by
  refine ⟨by dsimp [Store.write]; omega, hu, ?_⟩
  intro k' n o' r h hr
  dsimp only [Store.write] at h
  by_cases hk : k' = k
  · subst hk
    rw [Function.update_self, Table.get_insert] at h
    split at h
    · cases h
      omega
    · exact h
  · rw [Function.update_of_ne hk] at h
    exact h

theorem evolves_remove (s : Store) (k : Kind) (n : String) : Evolves s (s.remove k n) := by
  refine ⟨by dsimp [Store.remove]; omega, le_refl _, ?_⟩
  intro k' n' o' r h hr
  dsimp only [Store.remove] at h
  by_cases hk : k' = k
  · subst hk
    rw [Function.update_self, Table.get_erase] at h
    split at h
    · cases h
    · exact h
  · rw [Function.update_of_ne hk] at h
    exact h

theorem stampNew_uids_le (uids : Uid) (nowUnix : Int) (m : Meta) : uids ≤ (stampNew uids nowUnix m).2 := by
  unfold stampNew
  dsimp only
  split
  · exact Nat.le_succ _
  · exact le_refl _

theorem evolves_created (s : Store) (nowUnix : Int) (k : Kind) (o : k.Obj)
    (hv : validName (metaOf o).name) : Evolves s (s.created nowUnix k o hv) :=
  evolves_write s k _ _ _ (stampNew_uids_le _ _ _)

theorem evolves_put (s : Store) (nowUnix : Int) (k : Kind) (o : k.Obj) (e : Int) :
    Evolves s (s.put nowUnix k o e).2 := by
  unfold Store.put Store.putCreate Store.putUpsert Store.putCAS
  have hrefl := evolves_refl s
  split
  · split
    · split
      · exact hrefl
      · exact evolves_created s nowUnix k o (by assumption)
    · split
      · split
        · exact evolves_write s k _ _ (by rw [metaOf_setMeta]; assumption) (le_refl _)
        · exact evolves_created s nowUnix k o (by assumption)
      · split
        · split
          · split
            · exact evolves_write s k _ _ (by assumption) (le_refl _)
            · exact hrefl
          · exact hrefl
        · exact hrefl
  · exact hrefl

theorem evolves_delete (s : Store) (k : Kind) (n : String) : Evolves s (s.delete k n).2 := by
  unfold Store.delete
  repeat' split
  all_goals first
    | exact evolves_refl s
    | exact evolves_remove s k n

theorem evolves_deleteIfRevision (s : Store) (k : Kind) (n : String) (e : Int) :
    Evolves s (s.deleteIfRevision k n e).2 := by
  unfold Store.deleteIfRevision
  repeat' split
  all_goals first
    | exact evolves_refl s
    | exact evolves_remove s k n

-- What a caller may rely on between two of its calls.
def World.le (w w' : World) : Prop := Evolves w.store w'.store ∧ w.now ≤ w'.now

theorem answer_le {α : Type} (c : Choice) (w : World) (x : Except StoreErr α × Store)
    (hx : Evolves w.store x.2) : w.le (answer c w x).2 := by
  unfold answer
  cases c.fault with
  | none => exact ⟨hx, le_refl _⟩
  | lost => exact ⟨evolves_refl _, le_refl _⟩
  | unacked => exact ⟨hx, le_refl _⟩

theorem exec_le (c : Choice) (op : Op) (w : World) : w.le (exec c op w).2 := by
  have hrefl : w.le w := ⟨evolves_refl _, le_refl _⟩
  cases op with
  | get k n => exact hrefl
  | list k => exact hrefl
  | put k o e => exact answer_le c w _ (evolves_put w.store w.unix k o e)
  | delete k n => exact answer_le c w _ (evolves_delete w.store k n)
  | deleteIfRevision k n e => exact answer_le c w _ (evolves_deleteIfRevision w.store k n e)
  | now => exact hrefl
  | hexSuffix => exact hrefl
  | send m => exact hrefl
  | pause => exact hrefl

-- A move of the outside world: the clock, or a write by something that is not a program here.
structure Move where
  apply : World → World
  grows : ∀ w : World, w.le (apply w)

def tick (d : ℕ) : Move where
  apply w := { w with now := w.now + d }
  grows w := ⟨evolves_refl _, by dsimp; omega⟩

abbrev klited : Machine Op Res where
  World := World
  Choice := Choice
  Move := Move
  exec := exec
  move m := m.apply
  le := World.le
  le_refl _ := ⟨evolves_refl _, le_refl _⟩
  le_trans h h' := ⟨evolves_trans h.1 h'.1, h.2.trans h'.2⟩
  exec_le := exec_le
  move_le m w := m.grows w

abbrev Code := Prog Op Res

def get (k : Kind) (n : String) : Code (Except StoreErr (k.Obj × Int)) := Prog.perform (Op.get k n)

def list (k : Kind) : Code (Except StoreErr (List k.Obj × Int)) := Prog.perform (Op.list k)

def put (k : Kind) (o : k.Obj) (expectedRev : Int) : Code (Except StoreErr Int) :=
  Prog.perform (Op.put k o expectedRev)

def delete (k : Kind) (n : String) : Code (Except StoreErr Unit) := Prog.perform (Op.delete k n)

def deleteIfRevision (k : Kind) (n : String) (expectedRev : Int) : Code (Except StoreErr Unit) :=
  Prog.perform (Op.deleteIfRevision k n expectedRev)

def now : Code Int := Prog.perform Op.now

def hexSuffix : Code String := Prog.perform Op.hexSuffix

def send (message : String) : Code Bool := Prog.perform (Op.send message)

def pause : Code Bool := Prog.perform Op.pause

-- Writes retry this many revision races before giving up (server.go:23, controller.go:19).
def casRetries : ℕ := 5

-- What a handler makes of the object it read: an answer, or a write with the answer to give after it.
inductive Verdict (k : Kind) (α : Type) where
  | done (a : α)
  | write (o : k.Obj) (a : α)

/- The read-judge-write loop the handlers share: read the object, judge it, write
the edited object at the revision read, and start over when that revision has
moved. `failed` answers any other store error. -/
def casLoop {α : Type} (k : Kind) (name : String) (judge : k.Obj → Code (Verdict k α))
    (failed : StoreErr → α) (raced : α) : ℕ → Code α
  | 0 => pure raced
  | n + 1 => do
    match ← get k name with
    | .error e => pure (failed e)
    | .ok (o, rev) =>
      match ← judge o with
      | .done a => pure a
      | .write o' a =>
        match ← put k o' rev with
        | .ok _ => pure a
        | .error e => if e.isConflict then casLoop k name judge failed raced n else pure (failed e)

end Klite
