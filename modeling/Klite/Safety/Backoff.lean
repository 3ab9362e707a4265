import Klite.Agent.LoopSpec
import Mathlib.Algebra.Order.Ring.Int

/-!
# The restart backoff over one agent life

The runtime answers every call as it likes: it lists any containers in any states and fails
at will. Snapshots replace each other and the clock never goes back.
-/

namespace Klite.Agent
open Lib

structure Local where
  mem : Memory := {}
  now : Int := 0

def Local.exec (c : (op : Op) → Res op) : (op : Op) → Local → Res op × Local
  | .haveSnapshot, w => (w.mem.haveSnapshot, w)
  | .snapshotDesired, w => (w.mem.desired, w)
  | .rememberedGrace name, w => (w.mem.rememberedGrace name, w)
  | .forgetGrace name, w => ((), { w with mem := w.mem.forgetGrace name })
  | .stateFor inst, w => (w.mem.stateFor inst, w)
  | .putState name st, w => ((), { w with mem := w.mem.putState name st })
  | .pruneState desired, w => ((), { w with mem := w.mem.pruneState desired })
  | .probeReady name, w => (w.mem.probeReady.getD name false, w)
  | .now, w => (w.now, w)
  | op, w => (c op, w)

inductive Influence where
  | snapshot (ds : NodeSnapshot)
  | probed (name : String) (ready : Bool)
  | tick (d : ℕ)

def Local.move : Influence → Local → Local
  | .snapshot ds, w => { w with mem := w.mem.applySnapshot ds }
  | .probed name ready, w => { w with mem := { w.mem with probeReady := w.mem.probeReady.insert name ready } }
  | .tick d, w => { w with now := w.now + d }

abbrev Act := Event Op Res Local

/-! ## What a history shows -/

def failure : Act → Bool
  | ⟨.ensureImage _, .error _, _, _⟩ => true
  | ⟨.createOptions _, .error _, _, _⟩ => true
  | ⟨.containerRemove _, .error _, _, _⟩ => true
  | ⟨.containerRemoveName _, .error _, _, _⟩ => true
  | ⟨.containerCreate _, .conflict _, _, _⟩ => true
  | ⟨.containerCreate _, .failed _, _, _⟩ => true
  | ⟨.containerStart _, .error _, _, _⟩ => true
  | _ => false

-- The state looked at has no crash noted, the one written has.
def sawCrash (st : InstState) : Act → Bool
  | ⟨.stateFor _, st₀, _, _⟩ => st.awaitingRestart && !st₀.awaitingRestart
  | _ => false

structure Record where
  name : String
  uid : Uid
  time : Int
  deriving DecidableEq

/- A record is a write right after a reading of the clock, and the reading comes right after a
failed call, or after a look at the state that the write marks as crashed. -/
def recordedBy : Act → List Act → Option Record
  | ⟨.putState name st, _, _, _⟩, ⟨.now, t, _, _⟩ :: e :: _ =>
    if failure e || sawCrash st e then some ⟨name, st.uid, t⟩ else none
  | _, _ => none

def records : List Act → List Record
  | [] => []
  | e :: h => (recordedBy e h).toList ++ records h

def mapBy : Act → Option Desired
  | ⟨.snapshotDesired, desired, _, _⟩ => some desired
  | _ => none

def drainingBy : Act → Option (String × Uid)
  | ⟨.stateFor inst, _, _, _⟩ => if inst.phase = .draining then some (inst.metadata.name, inst.metadata.uid) else none
  | _ => none

structure View where
  copies : List Desired
  draining : List (String × Uid)
  records : List Record

def view (h : List Act) : View := ⟨h.filterMap mapBy, h.filterMap drainingBy, records h⟩

def Desired.Has (D : Desired) (n : String) (u : Uid) : Prop := ∃ inst, D.map[n]? = some inst ∧ inst.metadata.uid = u

instance (D : Desired) (n : String) (u : Uid) : Decidable (D.Has n u) :=
  decidable_of_iff (D.map[n]?.map (·.metadata.uid) = some u) Option.map_eq_some_iff

namespace View
variable (v : View) (n : String) (u : Uid)

def times : List Int := (v.records.filter fun r => r.name = n ∧ r.uid = u).map Record.time

-- Once it is in a map that a pass works on, it is in all later ones.
def Stays : Prop := v.copies.Pairwise fun new old => old.Has n u → new.Has n u

def Met : Prop := ∃ D ∈ v.copies, D.Has n u

instance : Decidable (v.Stays n u) := inferInstanceAs (Decidable (List.Pairwise _ _))

end View

def delay : ℕ → Int
  | 0 => 0
  | k + 1 => min (2 ^ k) 30 * second

/- What the state of an instance is bound to be after the records and sightings of a history. -/
structure Tracks (v : View) (n : String) (u : Uid) (st : InstState) : Prop where
  backoff : st.backoff = delay (v.times n u).length
  nextTry : st.nextTry = (v.times n u).head?.map fun t => t + delay (v.times n u).length
  sticky : (n, u) ∈ v.draining → st.draining

/- An instance that stays is tracked by its state, and one that no pass has met has no history. -/
def Held (v : View) (m : Memory) (n : String) (u : Uid) : Prop := v.Stays n u →
  (∀ inst : Instance, inst.metadata.name = n → inst.metadata.uid = u → Tracks v n u (m.stateFor inst)) ∧
  (¬ v.Met n u → v.times n u = [] ∧ (n, u) ∉ v.draining)

structure Newest (D : Desired) (v : View) : Prop where
  copied : D ∈ v.copies
  latest : ∀ n u, v.Stays n u → v.Met n u → D.Has n u

structure Working (D : Desired) (inst : Instance) (st : InstState) (h : List Act) (w : Local) : Prop where
  mine : D.map[inst.metadata.name]? = some inst
  uid : st.uid = inst.metadata.uid
  others : ∀ n u, (n, u) ≠ (inst.metadata.name, inst.metadata.uid) → Held (view h) w.mem n u
  own : (view h).Stays inst.metadata.name inst.metadata.uid →
    Tracks (view h) inst.metadata.name inst.metadata.uid st
  newest : Newest D (view h)

section Views
variable {h h' : List Act} {v : View} {m m' : Memory} {n : String} {u : Uid} {D : Desired} {inst : Instance}
  {st st' : InstState} {w w' : Local}

def Op.quiet : Op → Bool
  | .snapshotDesired | .stateFor _ | .putState _ _ => false
  | _ => true

end Views

/-! ## The write of a state -/

section Put
variable {h : List Act} {n : String} {u : Uid} {D : Desired} {inst : Instance} {st st' : InstState} {w : Local}

end Put

/-! ## The calls of a life -/

section Calls
variable {h : List Act} {w : Local} {D : Desired} {inst : Instance} {st : InstState}

end Calls

/- What holds at every point of a life. -/
structure Tracked (h : List Act) (w : Local) : Prop where
  clock : ∀ t, clock h = some t → t ≤ w.now
  newest : ∀ D, current h = some D → Newest D (view h)
  resting : look h = none → ∀ n u, Held (view h) w.mem n u
  working : ∀ inst st₀, look h = some (inst, st₀) →
    ∃ D, current h = some D ∧ Working D inst (kept inst st₀) h w

section Tracked
variable {h : List Act} {w w' : Local}

/- What every RunInstance call satisfies. -/
def gate (h : List Act) (w : Local) : Op → Prop
  | .createOptions inst => (view h).Stays inst.metadata.name inst.metadata.uid →
      (∀ t ts, (view h).times inst.metadata.name inst.metadata.uid = t :: ts →
        t + min (2 ^ ts.length) 30 * second ≤ w.now) ∧
      (inst.metadata.name, inst.metadata.uid) ∉ (view h).draining
  | _ => True

end Tracked

def bare (image : Except String Unit) : (op : Op) → Res op
  | .haveSnapshot => false
  | .snapshotDesired => desiredOf []
  | .rememberedGrace _ => 0
  | .forgetGrace _ => ()
  | .stateFor inst => { uid := inst.metadata.uid, phase := .pending }
  | .putState _ _ => ()
  | .pruneState _ => ()
  | .probeReady _ => false
  | .now => 0
  | .createOptions _ => .ok ()
  | .ensureImage _ => image
  | .containerList => .ok []
  | .containerStop _ _ => .ok ()
  | .containerRemove _ => .ok ()
  | .containerRemoveName _ => .ok ()
  | .containerCreate _ => .created 0
  | .containerStart _ => .ok ()
  | .inspectIP _ => ""

def inOrder : Pass := ⟨id, List.Perm.refl⟩

end Klite.Agent
