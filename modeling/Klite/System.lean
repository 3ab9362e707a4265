import Klite.Controller.NodeSpec
import Klite.Controller.WorkloadSpec
import Klite.Lib.Threads
import Klite.Server.AgentSpec
import Klite.Server.ClusterSpec

/-!
# The control plane

Any number of calls run at once over one store: RPC handlers on any replica, and
the leader's controllers, one store call at a time. Passes of one leader life run
one after the other in the source; here they may also overlap.
-/

namespace Klite
open Lib

inductive Call where
  | register (p : Principal) (req : RegisterRequest)
  | reportStatus (p : Principal) (req : ReportStatusRequest)
  | apply (decoded : Except String (List Object))
  | delete (req : DeleteRequest)
  | uncordon (node : String)
  | scale (workload : String) (replicas : Int)
  | drain (node : String) (force : Bool) (order : ℕ → List String → List String) (polls : ℕ)
  | workload (order : ℕ → List String → List String) (passes : ℕ)
  | scheduler
  | nodeController
  -- Any other client of the store.
  | other (p : Code Unit)

def Call.isAgent : Call → Bool
  | .register _ _ | .reportStatus _ _ => true
  | _ => false

inductive Reply where
  | registered (r : Except Status RegisterResponse)
  | answered (r : Except Status Unit)
  | results (r : Except Status (List ApplyResult))
  | passed

structure Config where
  agent : AgentConfig := {}
  hasher : Hasher

-- What the closed runs are started with, without and with a cluster token.
def plainConfig : Config := { hasher := ⟨fun _ => .ok "h"⟩ }

def tokenConfig : Config := { plainConfig with agent := { clusterToken := "join" } }

section Body
variable (cfg : Config)

def body : Call → Code Reply
  | .register p req => do pure (.registered (← register cfg.agent p req))
  | .reportStatus p req => do pure (.answered (← reportStatus p req))
  | .apply decoded => do pure (.results (← apply decoded))
  | .delete req => do pure (.results (← deleteRPC req))
  | .uncordon node => do pure (.answered (← uncordon node))
  | .scale workload replicas => do pure (.answered (← scale workload replicas))
  | .drain node force order polls => do pure (.answered (← drain node force order polls))
  | .workload order passes => do workloadLife cfg.hasher order passes ∅; pure .passed
  | .scheduler => do let _ ← schedulerReconcile; pure .passed
  | .nodeController => do let _ ← nodeReconcile; pure .passed
  | .other p => do p; pure .passed

def rights : Call → Rights
  | .register _ req => registerRights req.node
  | .reportStatus _ req => reportRights req
  | .apply _ => applyRights
  | .delete req => deleteRights req
  | .uncordon node => uncordonRights node
  | .scale _ replicas => scaleRights replicas
  | .drain node _ _ _ => drainRights node
  | .workload _ _ => workloadRights cfg.hasher
  | .scheduler => schedulerRights
  | .nodeController => nodeRights
  | .other _ => ⟨fun _ _ _ _ => True, fun _ _ _ _ _ => True, fun _ _ _ _ => True⟩

def Call.modelled : Call → Bool
  | .other _ => false
  | _ => true

def Call.isWorkload : Call → Bool
  | .workload _ _ => true
  | _ => false

def callSpec (call : Call) (h : Log) (w : World) (op : Op) : Prop :=
  call.modelled → Within (rights cfg call) h w op

def callPost : Call → Log → Reply → Prop
  | .register _ req, h, .registered (.ok resp) => Confirmed req.node resp.net.nodeIndex h
  | _, _, _ => True

end Body

theorem follows_any {α : Type} {S : Log → World → Op → Prop} {Q : Log → α → Prop}
    (hs : ∀ h w op, S h w op) (hq : ∀ h a, Q h a) (p : Code α) (h : Log) : Follows klited S Q p h := by
  induction p generalizing h with
  | ret a => exact hq h a
  | crash => trivial
  | call op k ih => exact fun w _ => ⟨hs h w op, fun c => ih _ _⟩

theorem follows_call_body {α : Type} {R : Rights} {P : Log → α → Prop} {S : Log → World → Op → Prop}
    {Q : Log → Reply → Prop} {p : Code α} {f : α → Reply} {h : Log}
    (hp : Obeys R P p h) (hs : ∀ h w op, Within R h w op → S h w op) (hq : ∀ h a, P h a → Q h (f a)) :
    Follows klited S Q (p >>= fun a => pure (f a)) h := by
  refine follows_bind (follows_mono p h hs (fun _ _ hq => hq) hp) ?_
  exact fun h' a _ ha => hq h' a ha

theorem follows_body (cfg : Config) (call : Call) (h : Log) :
    Follows klited (callSpec cfg call) (callPost call) (body cfg call) h := by
  cases call with
  | register p req =>
    refine follows_call_body (obeys_register cfg.agent p req h) (fun _ _ _ hw _ => hw) ?_
    intro h' r hr
    cases r with
    | error e => trivial
    | ok resp => exact hr resp rfl
  | reportStatus p req =>
    exact follows_call_body (obeys_reportStatus p) (fun _ _ _ hw _ => hw) fun _ _ _ => trivial
  | apply decoded =>
    exact follows_call_body (obeys_apply decoded) (fun _ _ _ hw _ => hw) fun _ _ _ => trivial
  | delete req =>
    exact follows_call_body (obeys_deleteRPC req) (fun _ _ _ hw _ => hw) fun _ _ _ => trivial
  | uncordon node =>
    exact follows_call_body (obeys_uncordon node h) (fun _ _ _ hw _ => hw) fun _ _ _ => trivial
  | scale workload replicas =>
    exact follows_call_body (obeys_scale workload replicas h) (fun _ _ _ hw _ => hw)
      fun _ _ _ => trivial
  | drain node force order polls =>
    exact follows_call_body (obeys_drain force order polls) (fun _ _ _ hw _ => hw) fun _ _ _ => trivial
  | workload order passes =>
    exact follows_call_body (obeys_workloadLife cfg.hasher order passes ∅ h) (fun _ _ _ hw _ => hw)
      fun _ _ _ => trivial
  | scheduler =>
    exact follows_call_body obeys_schedulerReconcile (fun _ _ _ hw _ => hw) fun _ _ _ => trivial
  | nodeController =>
    exact follows_call_body obeys_nodeReconcile (fun _ _ _ hw _ => hw) fun _ _ _ => trivial
  | other p => exact follows_any (fun _ _ _ hm => by cases hm) (fun _ _ => trivial) _ h

abbrev Klited := Sys klited Call Reply
abbrev Step := Label klited Call
abbrev Proc := Thread klited Call Reply

def start (w : World) : Klited := ⟨w, []⟩

abbrev plainRun (w : World) (ls : List Step) : Klited := (start w).run (body plainConfig) ls

abbrev tokenRun (w : World) (ls : List Step) : Klited := (start w).run (body tokenConfig) ls

/- What a run is made of: which calls start, and how the world moves by itself. -/
def Admits (A : Call → Prop) : Step → Prop
  | .spawn g => A g
  | .move m => ∃ d, m = tick d
  | _ => True

def admitsCheck (A : Call → Bool) : Step → Bool
  | .spawn g => A g
  | .move _ => false
  | _ => true

theorem admits_of_check {A : Call → Bool} {l : Step} (h : admitsCheck A l) : Admits (fun g => A g) l := by
  cases l with
  | spawn g => exact h
  | move m => cases h
  | step t c => trivial
  | abandon t => trivial

def standsAt (s : Klited) (t : ℕ) : Option Op :=
  match s.threads[t]? with
  | some ⟨_, .call op _, _⟩ => some op
  | _ => none

theorem standsAt_of_calls {s : Klited} {t : ℕ} {th : Proc} {op : Op} (h : s.Calls t th op) :
    standsAt s t = some op := by
  obtain ⟨hth, k, hp⟩ := h
  obtain ⟨tag, prog, hist⟩ := th
  simp only at hp
  subst hp
  unfold standsAt
  rw [hth]

-- The histories are true, and every call keeps to its rights.
structure Sound (cfg : Config) (s : Klited) : Prop where
  recorded : Recorded s
  conforms : Conforms (callSpec cfg) callPost s

section Sound
variable {cfg : Config}

theorem sound_start (w : World) : Sound cfg (start w) :=
  ⟨fun th hth => (by cases hth), fun th hth => (by cases hth)⟩

theorem sound_next {s : Klited} (l : Step) (hs : Sound cfg s) : Sound cfg (s.next (body cfg) l) :=
  ⟨recorded_next l hs.recorded,
    conforms_next l (fun g _ => follows_body cfg g []) hs.recorded hs.conforms⟩

theorem sound_run (cfg : Config) (w : World) (ls : List Step) : Sound cfg ((start w).run (body cfg) ls) := by
  refine run_invariant (body cfg) (Sound cfg) (fun _ _ => True) (fun s l h _ => sound_next l h)
    (start w) ls (sound_start w) ?_
  generalize start w = s
  induction ls generalizing s with
  | nil => trivial
  | cons l ls ih => exact ⟨trivial, ih _⟩

def Running (A : Call → Prop) (s : Klited) : Prop := ∀ th ∈ s.threads, A th.tag

theorem running_next {A : Call → Prop} {s : Klited} {l : Step} (hs : Running A s)
    (hl : Admits A l) : Running A (s.next (body cfg) l) := by
  intro th hm
  cases l with
  | spawn g =>
    rcases List.mem_append.mp hm with hm | hm
    · exact hs th hm
    · rw [List.mem_singleton.mp hm]
      exact hl
  | abandon t =>
    rcases mem_abandon (body cfg) hm with hm | ⟨th', hm', rfl⟩
    · exact hs th hm
    · rw [stop_tag]
      exact hs th' hm'
  | move m => exact hs th hm
  | step t c =>
    rcases next_step (body cfg) s t c with ⟨th', op, k, hth, hp, he⟩ | he
    · rw [he] at hm
      rcases List.mem_or_eq_of_mem_set hm with hm | rfl
      · exact hs th hm
      · exact hs th' (List.mem_of_getElem? hth)
    · rw [he] at hm
      exact hs th hm

theorem next_store {A : Call → Prop} {s : Klited} {l : Step} (hsound : Sound cfg s)
    (hrun : Running A s) (hmod : ∀ g, A g → g.modelled) (hl : Admits A l) :
    (s.next (body cfg) l).world.store = s.world.store ∨
    ∃ t c th op, l = .step t c ∧ s.Calls t th op ∧ A th.tag ∧ Within (rights cfg th.tag) th.hist s.world op ∧
      (s.next (body cfg) l).world = (exec c op s.world).2 ∧
      Change (rights cfg th.tag) th.hist s.world op (s.next (body cfg) l).world.store := by
  rcases next_world (body cfg) s l with he | ⟨m, rfl, -⟩ | ⟨t, c, th, op, rfl, hcalls, he⟩
  · exact Or.inl (by rw [he])
  · obtain ⟨d, rfl⟩ := hl
    exact Or.inl rfl
  · have hmem : th ∈ s.threads := List.mem_of_getElem? hcalls.1
    have hw := conforms_call hsound.recorded hsound.conforms hcalls (hmod _ (hrun th hmem))
    refine Or.inr ⟨t, c, th, op, rfl, hcalls, hrun th hmem, hw, he, ?_⟩
    rw [he]
    exact exec_change c hw

end Sound

end Klite
