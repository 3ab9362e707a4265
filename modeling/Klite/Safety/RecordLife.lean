import Klite.Safety.InstanceDrain
import Klite.Safety.Ownership

/-!
# What a record keeps for life

From its creation to its deletion, whoever writes it in between.
-/

namespace Klite
open Lib

/-- The spec of an instance but for the node, which is still to be chosen. -/
def SameTemplate : {k : Kind} → k.Obj → k.Obj → Prop
  | .inst, a, b => { Instance.spec b with node := "" } = { Instance.spec a with node := "" }
  | _, _, _ => True

/-- Name, uid and creation time. -/
def identity {k : Kind} (o : k.Obj) : Meta := { metaOf o with labels := ∅, resourceVersion := 0 }

/-- Two states of one record. Allocations are never edited. -/
structure SameLife {k : Kind} (a b : k.Obj × Int) : Prop where
  identity : identity b.1 = identity a.1
  bound : StaysBound a.1 b.1
  template : SameTemplate a.1 b.1
  allocation : isAllocation k → b = a

section Life
variable {k : Kind}

theorem sameLife_refl (a : k.Obj × Int) : SameLife a a := by
  refine ⟨rfl, ?_, ?_, fun _ => rfl⟩
  · cases k <;> simp [StaysBound]
  · cases k <;> simp [SameTemplate]

theorem SameLife.trans {a b c : k.Obj × Int} (h : SameLife a b) (h' : SameLife b c) : SameLife a c := by
  refine ⟨h'.identity.trans h.identity, ?_, ?_, fun hk => (h'.allocation hk).trans (h.allocation hk)⟩
  · have hb := h.bound
    have hb' := h'.bound
    cases k with
    | inst =>
      intro hne
      have hsame := hb hne
      exact (hb' (hsame.symm ▸ hne)).trans hsame
    | _ => trivial
  · have ht := h.template
    have ht' := h'.template
    cases k with
    | inst => exact ht'.trans ht
    | _ => trivial

theorem owned_template {h : Log} {g : Call} {cur new : k.Obj} (ho : Owned h g cur new) :
    SameTemplate cur new ∧ isAllocation k = false := by
  cases ho with
  | spec decoded cur new hk hnew => cases k <;> first | exact ⟨trivial, rfl⟩ | cases hk
  | replicas name replicas cur new hnew => exact ⟨trivial, rfl⟩
  | pendingDelete req cur new hnew => exact ⟨trivial, rfl⟩
  | bind cur new hfree hnew hnode =>
    refine ⟨?_, rfl⟩
    rw [hnew]
    rfl
  | status g cur new hk hnew =>
    rw [hnew]
    cases k with
    | inst => exact ⟨rfl, rfl⟩
    | vipAllocation => cases g <;> cases hk
    | ingressAllocation => cases g <;> cases hk
    | _ => exact ⟨trivial, rfl⟩

theorem sameLife_edit {h : Log} {g : Call} {cur new : k.Obj} (ho : Owned h g cur new) (r r' : Int) :
    SameLife (cur, r) (stamp new r', r') := by
  obtain ⟨hmeta, -⟩ := owned_meta ho
  obtain ⟨htemplate, hnot⟩ := owned_template ho
  have hbound := owned_bound ho
  refine ⟨?_, ?_, ?_, fun hk => absurd (hnot.symm.trans hk) nofun⟩
  · unfold identity
    rw [metaOf_stamp, hmeta]
  · cases k <;> exact hbound
  · cases k <;> exact htemplate

variable {n : String} {a b : k.Obj × Int}

theorem sameLife_next {cfg : Config} {s : Klited} {l : Step} (hs : Writing cfg s) (hl : Admits Call.Writer l)
    (ha : s.world.store.lookup k n = some a) (hb : (s.next (body cfg) l).world.store.lookup k n = some b) : SameLife a b := by
  rcases writing_store hs hl with hsame | ⟨t, c, th, op, rfl, hcall, hg, hch⟩
  · rw [hsame, ha] at hb
    exact Option.some.inj hb ▸ sameLife_refl a
  · rcases change_record hch k n with
      hsame | ⟨o, -, hnone, -⟩ | ⟨cur, r, o, -, hcur, hr, -, hnew⟩ | ⟨cur, r, -, -, -, hgone⟩
    · rw [hsame, ha] at hb
      exact Option.some.inj hb ▸ sameLife_refl a
    · cases ha.symm.trans hnone
    · obtain rfl := Option.mem_unique ha hcur
      obtain rfl := Option.mem_unique hb hnew
      exact sameLife_edit (edit_owned hg hr) _ _
    · cases hb.symm.trans hgone

/-- In every run of all writers, a name that is stored at two moments is free at some moment in between, or it is one
record: uid, creation time and the template of an instance are the same, an instance stays where it was bound, and an
allocation has not changed at all. -/
theorem record_life (cfg : Config) (w : World) (ls ls' : List Step)
    (hl : Along (body cfg) (fun _ l => Admits Call.Writer l) (start w) (ls ++ ls'))
    (ha : ((start w).run (body cfg) ls).world.store.lookup k n = some a)
    (hb : ((start w).run (body cfg) (ls ++ ls')).world.store.lookup k n = some b) :
    SameLife a b ∨ ∃ ls₁ ls₂, ls' = ls₁ ++ ls₂ ∧ ((start w).run (body cfg) (ls ++ ls₁)).world.store.lookup k n = none := by
  induction ls' using List.reverseRecOn generalizing b with
  | nil =>
    rw [List.append_nil, ha] at hb
    exact .inl (Option.some.inj hb ▸ sameLife_refl a)
  | append_singleton ls' l ih =>
    rw [← List.append_assoc] at hl hb
    have hbefore := along_init (body cfg) _ _ _ hl
    cases hc : ((start w).run (body cfg) (ls ++ ls')).world.store.lookup k n with
    | none => exact .inr ⟨ls', [l], rfl, hc⟩
    | some c =>
      rcases ih hbefore hc with hlife | ⟨ls₁, ls₂, rfl, hfree⟩
      · rw [run_append] at hb
        have hlast := (along_append (body cfg) _ _ _ hl).1
        exact .inl (hlife.trans (sameLife_next (writing_run cfg w _ hbefore) hlast hc hb))
      · exact .inr ⟨ls₁, ls₂ ++ [l], by rw [List.append_assoc], hfree⟩

end Life

theorem record_life_scaled : SameLife (k := .workload) (storedWeb 1 1, 1) (storedWeb 3 2, 2) := by
  let ls : List Step := [.spawn (.scale "web" 3), .step 0 {}]
  have hpre : (plainRun storedWorld ls).world.store.lookup .workload "web" = some (storedWeb 1 1, 1) := by
    decide +kernel
  have hpost : (plainRun storedWorld (ls ++ [.step 0 {}])).world.store.lookup .workload "web" =
      some (storedWeb 3 2, 2) := by
    decide +kernel
  rcases record_life plainConfig storedWorld ls [.step 0 {}] ⟨trivial, trivial, trivial, trivial⟩ hpre hpost with
    hlife | ⟨ls₁, ls₂, hsplit, hfree⟩
  · exact hlife
  · rcases List.append_eq_singleton_iff.mp hsplit.symm with ⟨rfl, -⟩ | ⟨rfl, -⟩
    · cases hpre.symm.trans hfree
    · cases hpost.symm.trans hfree

/-! ### The uid of an instance -/

/-- Whatever has the uid of `i` is `i`, and nothing new can get it. -/
structure Identified (cfg : Config) (i : Instance) (s : Klited) : Prop where
  minted : MintedRun cfg s
  writing : Writing cfg s
  taken : i.metadata.uid ≤ s.world.store.uids
  same : ∀ j, Holds s.world.store .inst j → j.metadata.uid = i.metadata.uid →
    SameLife (k := .inst) (i, i.metadata.resourceVersion) (j, j.metadata.resourceVersion)

theorem identified_next {cfg : Config} {i : Instance} {s : Klited} {l : Step} (h : Identified cfg i s)
    (hl : Admits (fun g => g.modelled) l) : Identified cfg i (s.next (body cfg) l) := by
  have hw := admits_mono (fun _ => writer_of_modelled) hl
  have hgrow := next_uids h.minted.sound h.minted.running (fun _ hg => hg) hl
  refine ⟨mintedRun_next h.minted hl, writing_next h.writing hw, le_trans h.taken hgrow, ?_⟩
  intro j hj hu
  rcases uid_next h.minted hl hj with ⟨cur, hcur, hcu, hname⟩ | ⟨hnew, -⟩
  · have hat : s.world.store.lookup .inst j.metadata.name = some (cur, cur.metadata.resourceVersion) := hname ▸ hcur
    exact (h.same cur hcur (hcu.trans hu)).trans (sameLife_next h.writing hw hat hj)
  · have htaken := h.taken
    rw [← hu, hnew] at htaken
    exact absurd htaken (Nat.not_succ_le_self _)

/-- In every run of the handlers and controllers, instances that have one uid at any two moments are one record. -/
theorem uid_life (cfg : Config) (w : World) (hw : InstancesMinted w) (ls ls' : List Step)
    (hl : Along (body cfg) (fun _ l => Admits (fun g => g.modelled) l) (start w) (ls ++ ls')) {i j : Instance}
    (hi : Holds ((start w).run (body cfg) ls).world.store .inst i)
    (hj : Holds ((start w).run (body cfg) (ls ++ ls')).world.store .inst j) (hu : j.metadata.uid = i.metadata.uid) :
    SameLife (k := .inst) (i, i.metadata.resourceVersion) (j, j.metadata.resourceVersion) := by
  have hrun := run_invariant (body cfg) (fun s => MintedRun cfg s ∧ Writing cfg s) (fun _ l => Admits (fun g => g.modelled) l)
    (fun _ _ hs hl => ⟨mintedRun_next hs.1 hl, writing_next hs.2 (admits_mono (fun _ => writer_of_modelled) hl)⟩) (start w) ls
    ⟨⟨sound_start w, fun th hth => (by cases hth), hw⟩, writing_start w⟩ (along_init (body cfg) _ _ _ hl)
  have hstart : Identified cfg i ((start w).run (body cfg) ls) := by
    refine ⟨hrun.1, hrun.2, hrun.1.minted.bounded i hi, ?_⟩
    intro j hj hu
    obtain rfl : j = i := listing_name_inj (mem_listing.mpr hj) (mem_listing.mpr hi) (hrun.1.minted.unique j i hj hi hu)
    exact sameLife_refl _
  rw [run_append] at hj
  exact (run_invariant (body cfg) (Identified cfg i) _ (fun _ _ hs hl => identified_next hs hl) _ ls' hstart
    (along_append (body cfg) _ _ _ hl)).same j hj hu

/-- The workload controller retires the instance in between. -/
theorem uid_life_retired : ∃ i j : Instance, i.phase = .ready ∧ j.phase = .draining ∧
    SameLife (k := .inst) (i, i.metadata.resourceVersion) (j, j.metadata.resourceVersion) := by
  obtain ⟨i, hi, hui, hpi⟩ := holds_of_instAt (w := (plainRun shrunkWorld []).world) (n := "web-1a2b")
    (u := 1) (p := .ready) (by decide +kernel)
  obtain ⟨j, hj, huj, hpj⟩ := holds_of_instAt (w := (plainRun shrunkWorld ([] ++ retireSteps)).world)
    (n := "web-1a2b") (u := 1) (p := .draining) (by decide +kernel)
  exact ⟨i, j, hpi, hpj, uid_life plainConfig shrunkWorld (minted_of_check (by decide +kernel)) [] retireSteps
    ⟨rfl, trivial, trivial, trivial, trivial, trivial⟩ hi hj (huj.trans hui.symm)⟩

end Klite
