import Klite.System

/-!
# Revision-pinned deletes

The workload controller, node evacuation and a forced drain remove an instance
only while it is the object their own last listing showed, whatever else writes
to the store in between.
-/

namespace Klite
open Lib

def Call.removesInstances : Call → Bool
  | .workload _ _ | .nodeController | .drain _ _ _ _ => true
  | _ => false

-- The object a listing shows under its name, and the only one.
def ShownAs (insts : List Instance) (cur : Instance) : Prop :=
  ∀ o ∈ insts, o.metadata.name = cur.metadata.name ↔ o = cur

/- What is known of an instance that a call removes: the caller's listing showed it
as it is, and the call had a reason of its own to remove it. -/
structure RemovedAs (call : Call) (h : Log) (cur : Instance) : Prop where
  listed : ∃ insts, lastListed .inst h = some insts ∧ cur ∈ insts ∧ ShownAs insts cur
  drained : ∀ node force order polls, call = .drain node force order polls →
    cur.phase = .draining ∧ cur.spec.node = node
  notReady : ∀ order passes, call = .workload order passes → ∃ wls,
    lastListed .workload h = some wls ∧
      (cur.spec.workload ∈ wls.map (·.metadata.name) → cur.phase ≠ .ready)

section Removal
variable {cfg : Config}
variable {s : Klited} {th : Proc} {cur : Instance}

theorem shownAs_of_listed (hs : Recorded s) (hm : th ∈ s.threads) {insts : List Instance}
    (hl : lastListed .inst th.hist = some insts) (hc : cur ∈ insts) : ShownAs insts cur := by
  obtain ⟨e, he, rfl⟩ := lastListed_listing (fun e he => ((hs th hm).1 e he).2) hl
  intro o ho
  exact ⟨fun hn => listing_name_inj ho hc hn, fun heq => by rw [heq]⟩

theorem removedAs_of_right (hs : Recorded s) (hm : th ∈ s.threads) (hd : th.tag.removesInstances)
    (hr : (rights cfg th.tag).remove .inst th.hist s.world cur) : RemovedAs th.tag th.hist cur := by
  have hshown : ∀ insts, lastListed .inst th.hist = some insts → cur ∈ insts →
      ∃ insts, lastListed .inst th.hist = some insts ∧ cur ∈ insts ∧ ShownAs insts cur :=
    fun insts hl hc => ⟨insts, hl, hc, shownAs_of_listed hs hm hl hc⟩
  cases htag : th.tag with
  | workload order passes =>
    rw [htag] at hr
    obtain ⟨wls, insts, hw, hi, hmem, hready⟩ := hr
    exact ⟨hshown insts hi hmem, fun _ _ _ _ he => (by cases he), fun _ _ _ => ⟨wls, hw, hready⟩⟩
  | nodeController =>
    rw [htag] at hr
    obtain ⟨insts, hi, hmem⟩ := hr
    exact ⟨hshown insts hi hmem, fun _ _ _ _ he => (by cases he), fun _ _ he => (by cases he)⟩
  | drain node force order polls =>
    rw [htag] at hr
    obtain ⟨hph, hnode, insts, hi, hmem⟩ := hr
    refine ⟨hshown insts hi hmem, fun _ _ _ _ he => ?_, fun _ _ he => (by cases he)⟩
    obtain ⟨rfl, -⟩ := Call.drain.inj he
    exact ⟨hph, hnode⟩
  | _ => rw [htag] at hd; cases hd

theorem removed_right (hsound : Sound cfg s) {t : ℕ} {c : Choice} {n : String} {r : Int} (hth : s.threads[t]? = some th)
    (hmod : th.tag.modelled) (hpre : s.world.store.lookup .inst n = some (cur, r))
    (hpost : (s.next (body cfg) (.step t c)).world.store.lookup .inst n = none) :
    (rights cfg th.tag).remove .inst th.hist s.world cur := by
  rcases next_step (body cfg) s t c with ⟨th', op, k, hth', hp, he⟩ | he
  · obtain rfl : th = th' := Option.mem_unique hth hth'
    have hw := conforms_call hsound.recorded hsound.conforms (show s.Calls t th op from ⟨hth, k, hp⟩) hmod
    rw [he] at hpost
    rcases change_record (exec_change c hw) .inst n with
      hsame | ⟨o, -, hnone, -⟩ | ⟨cur', r', o, -, hl, -, -, hpost'⟩ | ⟨cur', r', -, hl, hr, -⟩
    · rw [← hsame] at hpre
      exact absurd (hpost.symm.trans hpre) (by simp)
    · exact absurd (hnone.symm.trans hpre) (by simp)
    · exact absurd (hpost.symm.trans hpost') (by simp)
    · obtain ⟨rfl, rfl⟩ := Prod.mk.inj (Option.mem_unique hl hpre)
      exact hr
  · rw [he] at hpost
    exact absurd (hpost.symm.trans hpre) (by simp)

end Removal

/-- Over every run, with any other clients of the store: an instance that disappears in a
step of the workload controller, the node controller or a drain is the very object that
caller's last listing showed under the name. -/
theorem removed_as_listed (cfg : Config) (w : World) (ls : List Step) (t : ℕ) (c : Choice)
    (th : Proc) (n : String) (cur : Instance) (r : Int)
    (hth : ((start w).run (body cfg) ls).threads[t]? = some th) (hd : th.tag.removesInstances)
    (hpre : ((start w).run (body cfg) ls).world.store.lookup .inst n = some (cur, r))
    (hpost : (((start w).run (body cfg) ls).next (body cfg) (.step t c)).world.store.lookup .inst n = none) :
    RemovedAs th.tag th.hist cur := by
  have hsound := sound_run cfg w ls
  have hmod : th.tag.modelled := by
    cases htag : th.tag with
    | other p => rw [htag] at hd; cases hd
    | _ => rfl
  have hr := removed_right hsound hth hmod hpre hpost
  exact removedAs_of_right hsound.recorded (List.mem_of_getElem? hth) hd hr

def orphan : Instance where
  metadata := { name := "web-1a2b" }
  spec := { workload := "web" }
  status := some { phase := .ready }

def orphanWorld : World := ⟨(Store.empty.put 7 .inst orphan revCreate).2, 7 * second⟩

def orphanSteps : List Step :=
  [.spawn (.workload (fun _ names => names) 1), .step 0 {}, .step 0 {}, .step 0 {}]

theorem removed_as_listed_orphan : ∃ th cur,
    (plainRun orphanWorld orphanSteps).threads[0]? = some th ∧
    (plainRun orphanWorld orphanSteps).world.store.lookup .inst "web-1a2b" = some (cur, 1) ∧
    cur.phase = .ready ∧ RemovedAs th.tag th.hist cur :=
  ⟨_, _, rfl, rfl, rfl, removed_as_listed plainConfig orphanWorld orphanSteps 0 {} _ "web-1a2b" _ 1
    rfl rfl rfl rfl⟩

end Klite
