import Klite.Object.Types
import Klite.Lib.Table

/-!
# A node's workload containers (internal/runtime/runtime.go, docker.go)

dockerd keeps containers by id. A workload container is named after its instance and
carries the instance's name, UID and template hash as labels; one container at a time
holds a name. Nothing but the agent creates or starts one, its process may end at any time.
-/

namespace Klite.Agent
open Lib

structure Box where
  name : String
  uid : Uid
  hash : String
  running : Bool := false
  exitCode : Int := 0
  ip : String := ""
  deriving DecidableEq

structure Docker where
  boxes : Std.ExtTreeMap ℕ Box := ∅
  nextId : ℕ := 0
  fresh : ∀ (id : ℕ) (b : Box), boxes[id]? = some b → id < nextId
  named : ∀ (i j : ℕ) (b c : Box), boxes[i]? = some b → boxes[j]? = some c → b.name = c.name → i = j

structure RunningInstance where
  containerID : ℕ
  instanceName : String
  instanceUID : Uid
  templateHash : String
  running : Bool
  exitCode : Int
  ip : String
  deriving DecidableEq

def Box.report (id : ℕ) (b : Box) : RunningInstance where
  containerID := id
  instanceName := b.name
  instanceUID := b.uid
  templateHash := b.hash
  running := b.running
  exitCode := if b.running then 0 else b.exitCode
  ip := b.ip

def boxOf (inst : Instance) : Box where
  name := inst.metadata.name
  uid := inst.metadata.uid
  hash := inst.spec.templateHash

def Box.labels (b : Box) : String × Uid × String := (b.name, b.uid, b.hash)

def Box.halt (code : Int) (b : Box) : Box := if b.running then { b with running := false, exitCode := code } else b

-- A dynamic address is given at start.
def Box.start (ip : String) (b : Box) : Box := if b.running then b else { b with running := true, ip := ip }

@[simp] theorem halt_labels (code : Int) (b : Box) : (b.halt code).labels = b.labels := by
  unfold Box.halt
  split <;> rfl

@[simp] theorem start_labels (ip : String) (b : Box) : (b.start ip).labels = b.labels := by
  unfold Box.start
  split <;> rfl

@[simp] theorem halt_running (code : Int) (b : Box) : (b.halt code).running = false := by
  unfold Box.halt
  split
  · rfl
  · exact Bool.eq_false_iff.mpr ‹_›

theorem start_of_running {b : Box} (ip : String) (h : b.running) : b.start ip = b := if_pos h

namespace Docker
variable (d : Docker)

def none : Docker := ⟨∅, 0, by simp, by simp⟩

def list : List RunningInstance := d.boxes.toList.map fun e => e.2.report e.1

def update (id : ℕ) (f : Box → Box) (hf : ∀ b, (f b).labels = b.labels) : Docker where
  boxes := d.boxes.map fun i b => if i = id then f b else b
  nextId := d.nextId
  fresh := by
    intro i b h
    rw [Std.ExtTreeMap.getElem?_map] at h
    obtain ⟨b₀, h₀, -⟩ := Option.map_eq_some_iff.mp h
    exact d.fresh i b₀ h₀
  named := by
    intro i j b c hb hc hn
    rw [Std.ExtTreeMap.getElem?_map] at hb hc
    obtain ⟨b₀, hb₀, rfl⟩ := Option.map_eq_some_iff.mp hb
    obtain ⟨c₀, hc₀, rfl⟩ := Option.map_eq_some_iff.mp hc
    have hkeep : ∀ k x, (if k = id then f x else x).name = x.name := by
      intro k x
      split
      · exact congrArg Prod.fst (hf x)
      · rfl
    rw [hkeep, hkeep] at hn
    exact d.named i j b₀ c₀ hb₀ hc₀ hn

def stop (id : ℕ) (code : Int) : Docker := d.update id (Box.halt code) (halt_labels code)

def start (id : ℕ) (ip : String) : Docker := d.update id (Box.start ip) (start_labels ip)

def keep (p : ℕ → Box → Bool) : Docker where
  boxes := d.boxes.filter p
  nextId := d.nextId
  fresh := by
    intro i b h
    rw [Table.get_filter] at h
    exact d.fresh i b (Option.filter_eq_some_iff.mp h).1
  named := by
    intro i j b c hb hc hn
    rw [Table.get_filter] at hb hc
    exact d.named i j b c (Option.filter_eq_some_iff.mp hb).1 (Option.filter_eq_some_iff.mp hc).1 hn

def remove (id : ℕ) : Docker := d.keep fun i _ => i ≠ id

def removeNamed (name : String) : Docker := d.keep fun _ b => b.name ≠ name

def taken (name : String) : Bool := d.boxes.toList.any fun e => e.2.name = name

theorem taken_false {name : String} (h : d.taken name = false) {id : ℕ} {b : Box} (hb : d.boxes[id]? = some b) :
    b.name ≠ name := by
  unfold taken at h
  rw [List.any_eq_false] at h
  simpa using h (id, b) (Table.mem_toList.mpr hb)

def create (inst : Instance) (h : d.taken inst.metadata.name = false) : Docker where
  boxes := d.boxes.insert d.nextId (boxOf inst)
  nextId := d.nextId + 1
  fresh := by
    intro i b hb
    rw [Table.get_insert] at hb
    split at hb
    · omega
    · have hlt := d.fresh i b hb
      omega
  named := by
    intro i j b c hb hc hn
    rw [Table.get_insert] at hb hc
    split at hb <;> split at hc
    · omega
    · cases hb
      exact absurd hn.symm (d.taken_false h hc)
    · cases hc
      exact absurd hn (d.taken_false h hb)
    · exact d.named i j b c hb hc hn

variable {d} {id : ℕ} {b : Box}

theorem mem_list {ri : RunningInstance} : ri ∈ d.list ↔ ∃ (id : ℕ) (b : Box), d.boxes[id]? = some b ∧ ri = b.report id :=
  Table.mem_map_toList _ _ _

theorem get_update {j : ℕ} {f : Box → Box} {hf : ∀ b, (f b).labels = b.labels} :
    (d.update j f hf).boxes[id]? = d.boxes[id]?.map fun b => if id = j then f b else b := by
  unfold update
  dsimp only
  rw [Std.ExtTreeMap.getElem?_map]

theorem get_keep {p : ℕ → Box → Bool} : (d.keep p).boxes[id]? = some b ↔ d.boxes[id]? = some b ∧ p id b := by
  unfold keep
  dsimp only
  rw [Table.get_filter, Option.filter_eq_some_iff]

theorem get_create {inst : Instance} {h : d.taken inst.metadata.name = false} :
    (d.create inst h).boxes[id]? = if d.nextId = id then some (boxOf inst) else d.boxes[id]? := by
  unfold create
  dsimp only
  rw [Table.get_insert]

end Docker

structure Shrinks (d d' : Docker) : Prop where
  nextId : d.nextId ≤ d'.nextId
  back : ∀ (id : ℕ) (b' : Box), d'.boxes[id]? = some b' → ∃ b, d.boxes[id]? = some b ∧ b.labels = b'.labels ∧
    (b'.running → b.running)

section Shrinks
variable {d : Docker}

theorem shrinks_refl (d : Docker) : Shrinks d d := ⟨le_rfl, fun _ b hb => ⟨b, hb, rfl, fun hr => hr⟩⟩

theorem shrinks_stop (id : ℕ) (code : Int) : Shrinks d (d.stop id code) := by
  refine ⟨le_rfl, ?_⟩
  intro i b' hb'
  unfold Docker.stop at hb'
  rw [Docker.get_update] at hb'
  obtain ⟨b, hb, rfl⟩ := Option.map_eq_some_iff.mp hb'
  refine ⟨b, hb, ?_⟩
  split
  · exact ⟨(halt_labels code b).symm, fun hr => by simp at hr⟩
  · exact ⟨rfl, fun hr => hr⟩

theorem shrinks_keep (p : ℕ → Box → Bool) : Shrinks d (d.keep p) :=
  ⟨le_rfl, fun _ b hb => ⟨b, (Docker.get_keep.mp hb).1, rfl, fun hr => hr⟩⟩

end Shrinks

end Klite.Agent
