import Klite.Net.Daemon

/-!
# The prober of klite-net (internal/netd/probes.go)

A sweep dials every target it finds in the configuration, each dial ending in its own time,
and then replaces the retained results. One sweep runs at a time, and one that is cancelled
leaves the results as they are.
-/

namespace Klite.Netd
open Lib

structure ProbeState where
  inst : String
  ip : String
  port : Int
  ready : Bool
  deriving DecidableEq

structure Prober where
  sweep : Option (List (NetProbe × Option Bool)) := none
  state : Std.ExtTreeMap String ProbeState := ∅

def resultOf (d : NetProbe × Option Bool) : Option ProbeState :=
  d.2.map fun ready => ⟨d.1.inst, d.1.ip, d.1.port, ready⟩

namespace Prober
variable (p : Prober)

def beginSweep (cfg : NetConfig) : Prober :=
  match p.sweep with
  | some _ => p
  | none => { p with sweep := some (cfg.targets.map fun t => (t, none)) }

def dialing (i : ℕ) : Option NetProbe :=
  match p.sweep.bind (·[i]?) with
  | some (t, none) => some t
  | _ => none

def dialed (i : ℕ) (ready : Bool) : Prober :=
  match p.dialing i with
  | some t => { p with sweep := p.sweep.map fun dials => dials.set i (t, some ready) }
  | none => p

def endSweep : Prober :=
  match p.sweep with
  | some dials =>
    if dials.all (·.2.isSome) then
      { sweep := none, state := Table.fill ∅ ((dials.filterMap resultOf).map fun r => (r.inst, r)) }
    else p
  | none => p

def cancel : Prober := { p with sweep := none }

-- The source sorts by instance, as the map here is.
def snapshot : List ProbeState := p.state.toList.map (·.2)

def verdicts : List ProbeState := p.snapshot ++ (p.sweep.getD []).filterMap resultOf

theorem verdicts_new : ({} : Prober).verdicts = [] := by
  unfold verdicts snapshot
  simp

theorem verdicts_beginSweep (cfg : NetConfig) : ∀ v ∈ (p.beginSweep cfg).verdicts, v ∈ p.verdicts := by
  unfold beginSweep
  split
  · exact fun v hv => hv
  · intro v hv
    rcases List.mem_append.mp hv with hv | hv
    · exact List.mem_append_left _ hv
    · obtain ⟨d, hd, hr⟩ := List.mem_filterMap.mp hv
      obtain ⟨t, -, rfl⟩ := List.mem_map.mp hd
      cases hr

theorem verdicts_dialed (i : ℕ) (ready : Bool) : ∀ v ∈ (p.dialed i ready).verdicts, v ∈ p.verdicts ∨
    ∃ t, p.dialing i = some t ∧ v = ⟨t.inst, t.ip, t.port, ready⟩ := by
  unfold dialed
  cases hd : p.dialing i with
  | none => exact fun v hv => Or.inl hv
  | some t =>
    intro v hv
    rcases List.mem_append.mp hv with hv | hv
    · exact Or.inl (List.mem_append_left _ hv)
    · cases hs : p.sweep with
      | none =>
        rw [show ({ p with sweep := p.sweep.map fun dials => dials.set i (t, some ready) } : Prober).sweep = none by
          rw [hs]
          rfl] at hv
        cases hv
      | some dials =>
        rw [show ({ p with sweep := p.sweep.map fun dials => dials.set i (t, some ready) } : Prober).sweep =
          some (dials.set i (t, some ready)) by
          rw [hs]
          rfl] at hv
        obtain ⟨d, hd, hr⟩ := List.mem_filterMap.mp hv
        rcases List.mem_or_eq_of_mem_set hd with hd | rfl
        · refine Or.inl (List.mem_append_right _ ?_)
          rw [hs]
          exact List.mem_filterMap.mpr ⟨d, hd, hr⟩
        · exact Or.inr ⟨t, rfl, (Option.some.inj hr).symm⟩

theorem verdicts_endSweep : ∀ v ∈ p.endSweep.verdicts, v ∈ p.verdicts := by
  unfold endSweep
  split
  · rename_i dials hs
    split
    · intro v hv
      rcases List.mem_append.mp hv with hv | hv
      · obtain ⟨⟨k, v'⟩, he, rfl⟩ := List.mem_map.mp hv
        rcases Table.get_fill_some (Table.mem_toList.mp he) with hm | hm
        · obtain ⟨r, hr, heq⟩ := List.mem_map.mp hm
          cases heq
          refine List.mem_append_right _ ?_
          rw [hs]
          exact hr
        · rw [Std.ExtTreeMap.getElem?_empty] at hm
          cases hm
      · cases hv
    · exact fun v hv => hv
  · exact fun v hv => hv

theorem verdicts_cancel : ∀ v ∈ p.cancel.verdicts, v ∈ p.verdicts := by
  intro v hv
  rcases List.mem_append.mp hv with hv | hv
  · exact List.mem_append_left _ hv
  · cases hv

end Prober

end Klite.Netd
