import Klite.Lib.Process
import Klite.Safety.RolloutTally
import Klite.Safety.ScaleDown

/-!
# What a rollout pass leaves behind

A pass of the workload controller that runs alone, with no call lost and every new name
free.
-/

namespace Klite
open Lib

/-! ## One record changes -/

/- `new` is stored in the place of `cur`, and nothing else has moved. -/
structure Replaced (k : Kind) (w w' : World) (cur new : Option k.Obj) : Prop where
  count : ∀ P : k.Obj → Bool, w'.store.count k P + one (cur.any P) = w.store.count k P + one (new.any P)
  held : ∀ o, Holds w'.store k o ↔ o ∈ new ∨ (Holds w.store k o ∧ ∀ c ∈ cur, (metaOf o).name ≠ (metaOf c).name)
  others : ∀ k', k' ≠ k → w'.store.tbl k' = w.store.tbl k'
  now : w'.now = w.now

section Replaced
variable {w : World} {k : Kind} {cur o : k.Obj}

theorem replaced_remove (hcur : Holds w.store k cur) :
    Replaced k w { w with store := w.store.remove k (metaOf cur).name } (some cur) none := by
  refine ⟨fun P => count_remove w.store P hcur, fun o => ?_, fun k' hk => Function.update_of_ne hk _ _, rfl⟩
  unfold Holds
  rw [lookup_remove]
  by_cases hn : (metaOf cur).name = (metaOf o).name
  · rw [if_pos hn]
    simp [hn]
  · rw [if_neg hn]
    simp [show (metaOf o).name ≠ (metaOf cur).name from fun h => hn h.symm]

theorem holds_written {s s' : Store} {n : String} {r : Int} (hn : (metaOf o).name = n) (hr : (metaOf o).resourceVersion = r)
    (hl : ∀ m, s'.lookup k m = if n = m then some (o, r) else s.lookup k m) (x : k.Obj) :
    Holds s' k x ↔ x = o ∨ (Holds s k x ∧ (metaOf x).name ≠ n) := by
  unfold Holds
  rw [hl]
  by_cases hx : n = (metaOf x).name
  · rw [if_pos hx]
    constructor
    · intro he
      exact Or.inl (Prod.mk.inj (Option.some.inj he)).1.symm
    · rintro (rfl | ⟨-, hne⟩)
      · rw [hr]
      · exact absurd hx.symm hne
  · rw [if_neg hx]
    constructor
    · exact fun hj => Or.inr ⟨hj, fun he => hx he.symm⟩
    · rintro (rfl | ⟨hj, -⟩)
      · exact absurd hn.symm hx
      · exact hj

theorem replaced_write (hcur : Holds w.store k cur) (hn : (metaOf o).name = (metaOf cur).name)
    (hv : validName (metaOf o).name) :
    Replaced k w { w with store := w.store.write k o w.store.uids hv } (some cur) (some (stamp o (w.store.rev + 1))) := by
  have hl : w.store.lookup k (metaOf o).name = some (cur, (metaOf cur).resourceVersion) := by
    rw [hn]
    exact hcur
  refine ⟨fun P => count_write w.store P _ hv hl, fun x => ?_, fun k' hk => Function.update_of_ne hk _ _, rfl⟩
  have hm := metaOf_stamp o (w.store.rev + 1)
  refine (holds_written (by rw [hm]) (by rw [hm]) (lookup_write w.store k o _ hv) x).trans ?_
  simp [hn, eq_comm]

theorem replaced_created (hv : validName (metaOf o).name) (habs : w.store.lookup k (metaOf o).name = none) :
    Replaced k w { w with store := w.store.created w.unix k o hv } none
      (some (stamp (minted w.store w.unix o) (w.store.rev + 1))) := by
  have hm : (metaOf (minted w.store w.unix o)).name = (metaOf o).name := by
    rw [metaOf_minted, stampNew_name]
  have hms := metaOf_stamp (minted w.store w.unix o) (w.store.rev + 1)
  refine ⟨fun P => ?_, fun x => ?_, fun k' hk => Function.update_of_ne hk _ _, rfl⟩
  · exact count_write_new w.store P (o := minted w.store w.unix o) _ (by rw [hm]; exact hv) (by rw [hm]; exact habs)
  refine (holds_written (by rw [hms]; exact hm) (by rw [hms]) (lookup_created w.store w.unix o hv) x).trans ?_
  have hne : Holds w.store k x → (metaOf x).name ≠ (metaOf o).name := by
    intro hx hn
    unfold Holds at hx
    rw [hn, habs] at hx
    cases hx
  constructor
  · rintro (rfl | ⟨hx, -⟩)
    · exact Or.inl rfl
    · exact Or.inr ⟨hx, nofun⟩
  · rintro (hx | ⟨hx, -⟩)
    · exact Or.inl (Option.some.inj hx).symm
    · exact Or.inr ⟨hx, hne hx⟩

end Replaced

/-! ## The calls of a pass -/

/- The call reaches the store and is answered, and the name made from a drawn suffix is free. -/
def Smooth (name : String) (e : Event Op Res World) : Prop :=
  ∃ suffix, exec { suffix := suffix } e.op e.pre = (e.res, e.post) ∧
    (e.op = .hexSuffix → validName (name ++ "-" ++ suffix) ∧
      e.pre.store.lookup .inst (name ++ "-" ++ suffix) = none)

/- The program returns when it runs alone and smoothly, and `Q` holds of the world it leaves. -/
abbrev Yields {α : Type} (name : String) (Q : World → α → Prop) (p : Code α) (h : Log) (w : World) : Prop :=
  Guards (M := klited) Eq (Smooth name) (AnyCall klited) (fun _ w' a => Q w' a) p h w

section Calls
variable {α : Type} {name : String} {Q : World → α → Prop} {h : Log} {w : World}

theorem yields_call {op : Op} {k : Res op → Code α}
    (hk : ∀ suffix r w' h', exec { suffix := suffix } op w = (r, w') →
      (op = .hexSuffix → validName (name ++ "-" ++ suffix) ∧ w.store.lookup .inst (name ++ "-" ++ suffix) = none) →
      Yields name Q (k r) h' w') : Yields name Q (Prog.perform op >>= k) h w := by
  refine guards_answer (fun _ _ => trivial) ?_
  rintro _ c r w' rfl - ⟨suffix, hexec, hfree⟩
  exact hk suffix r w' _ hexec hfree

theorem yields_list {k : Kind} {f : Except StoreErr (List k.Obj × Int) → Code α}
    (hf : ∀ h', Yields name Q (f (.ok (w.store.listing k, w.store.rev))) h' w) : Yields name Q (list k >>= f) h w := by
  refine yields_call fun suffix r w' h' he _ => ?_
  obtain ⟨rfl, rfl⟩ := Prod.mk.inj (he.symm.trans (exec_list rfl k w))
  exact hf h'

end Calls

variable {wl : Workload} {container : Container}

section Instances
variable {name : String} {Q : World → Progress → Prop} {h : Log} {w : World} {p : Progress} {i : Instance}

theorem yields_deleteInstance (hi : Holds w.store .inst i) (hq : ∀ w', Replaced .inst w w' (some i) none → Q w' p) :
    Yields name Q (deleteInstance p i) h w := by
  refine yields_call fun suffix r w' h' he _ => ?_
  obtain ⟨rfl, rfl⟩ := Prod.mk.inj (he.symm.trans (exec_delete_held (c := { suffix := suffix }) rfl hi))
  exact hq _ (replaced_remove hi)

theorem yields_retireReady (reason : String) (hi : Holds w.store .inst i)
    (hq : ∀ w' new p', Replaced .inst w w' (some i) (some new) → new.spec = i.spec → new.phase = .draining →
      p'.deadlines = p.deadlines.insert new.metadata.uid (w.now + drainTimeout i) → Q w' p') :
    Yields name Q (retireReady p i reason) h w := by
  refine yields_call fun suffix r w₁ h' he _ => ?_
  obtain ⟨hv, hput⟩ := exec_put_held (c := { suffix := suffix }) rfl (o := markedRetired i reason) hi rfl
  obtain ⟨rfl, rfl⟩ := Prod.mk.inj (he.symm.trans hput)
  refine yields_call fun suffix' t w₂ h'' he' _ => ?_
  cases he'
  exact hq _ _ _ (replaced_write (k := .inst) (o := markedRetired i reason) hi rfl hv) rfl rfl rfl

theorem yields_createInstance {hash : String} (hn : wl.metadata.name = name)
    (hq : ∀ w' new, Replaced .inst w w' none (some new) → new.spec.workload = name → new.spec.templateHash = hash →
      new.spec.node = "" → new.phase = .pending → Q w' p) :
    Yields name Q (createInstance wl container hash p) h w := by
  subst hn
  refine yields_call fun suffix r w₁ h' he hfree => ?_
  obtain ⟨hv, habs⟩ := hfree rfl
  cases he
  refine yields_call fun suffix' r w₂ h'' he' _ => ?_
  let inst := newInstance wl container hash (wl.metadata.name ++ "-" ++ suffix)
  have hput := exec_create_absent (k := .inst) (w := w) (c := { suffix := suffix' }) rfl (o := inst) hv habs
  obtain ⟨rfl, rfl⟩ := Prod.mk.inj (he'.symm.trans hput)
  exact hq _ _ (replaced_created (k := .inst) (o := inst) hv habs) rfl rfl rfl rfl

end Instances

/-! ## The books of a pass -/

variable {i : Instance}

section Books
variable {hs : Hasher} (ro : Rollout hs)

/- What an instance counts as once it is bound and has started. -/
def Rollout.outlook (i : Instance) : Role :=
  if i.phase = .draining then .draining
  else if i.spec.templateHash = ro.hash ∧ (i.spec.node = "" ∨ i.spec.node ∉ ro.draining) then .fresh
  else .retiring

def Rollout.due (w : World) (r : Role) : ℕ := w.store.count .inst fun i => ro.outlook i = r

/- From one world to the other the instances in `out` have left their role, `marked` of them for DRAINING, and `made`
instances are new. -/
def Books (w w' : World) (out : List Instance) (marked made : ℕ) : Prop :=
  ∀ r, ro.due w' r + out.countP (fun i => ro.outlook i = r) =
    ro.due w r + (if r = .draining then marked else 0) + (if r = .fresh then made else 0)

variable {ro} {w w' w'' : World}

theorem outlook_draining : ro.outlook i = .draining ↔ i.phase = .draining := by
  unfold Rollout.outlook
  split
  · simp_all
  · split <;> simp_all

theorem outlook_new (hh : i.spec.templateHash = ro.hash) (hn : i.spec.node = "") (hp : i.phase = .pending) :
    ro.outlook i = .fresh := by
  unfold Rollout.outlook
  rw [if_neg (by rw [hp]; decide), if_pos ⟨hh, Or.inl hn⟩]

theorem books_refl : Books ro w w [] 0 0 := fun r => by simp

theorem books_trans {out out' : List Instance} {marked marked' made made' : ℕ} (hb : Books ro w w' out marked made)
    (hb' : Books ro w' w'' out' marked' made') : Books ro w w'' (out ++ out') (marked + marked') (made + made') := by
  intro r
  have h := hb r
  have h' := hb' r
  rw [List.countP_append]
  split_ifs at h h' ⊢ <;> omega

variable {i new : Instance}

theorem books_removed (hc : Replaced .inst w w' (some i) none) : Books ro w w' [i] 0 0 := by
  intro r
  have h : ro.due w' r + one (ro.outlook i = r) = ro.due w r := hc.count fun i => ro.outlook i = r
  simpa [List.countP_cons, one] using h

theorem books_marked (hc : Replaced .inst w w' (some i) (some new)) (hp : new.phase = .draining) :
    Books ro w w' [i] 1 0 := by
  intro r
  have h : ro.due w' r + one (ro.outlook i = r) = ro.due w r + one (ro.outlook new = r) :=
    hc.count fun i => ro.outlook i = r
  rw [outlook_draining.mpr hp] at h
  simpa [List.countP_cons, one, eq_comm (a := Role.draining)] using h

theorem books_created (hc : Replaced .inst w w' none (some new)) (ho : ro.outlook new = .fresh) :
    Books ro w w' [] 0 1 := by
  intro r
  have h : ro.due w' r = ro.due w r + one (ro.outlook new = r) := hc.count fun i => ro.outlook i = r
  rw [ho] at h
  simpa [one, eq_comm (a := Role.fresh)] using h

end Books

/-! ## A pass under way -/

def Progress.notes (p : Progress) (u : Uid) : Prop := ∃ t, p.deadlines[u]? = some t

theorem notes_insert {p p' : Progress} {u : Uid} {t : Int} (h : p'.deadlines = p.deadlines.insert u t) :
    p'.notes u ∧ ∀ v, p.notes v → p'.notes v := by
  unfold Progress.notes
  rw [h]
  refine ⟨⟨t, by rw [Table.get_insert, if_pos rfl]⟩, ?_⟩
  rintro v ⟨t', ht'⟩
  rw [Table.get_insert]
  split
  · exact ⟨t, rfl⟩
  · exact ⟨t', ht'⟩

section MidPass
variable {hs : Hasher} (ro : Rollout hs)

/- The instances in `todo` are stored as they were listed, and every other DRAINING one has a deadline. -/
structure MidPass (w₀ : World) (todo : List Instance) (w : World) (p : Progress) : Prop where
  others : ∀ k, k ≠ .inst → w.store.tbl k = w₀.store.tbl k
  now : w.now = w₀.now
  mine : ∀ i : Instance, Holds w.store .inst i → i.spec.workload = ro.name
  held : ∀ i ∈ todo, Holds w.store .inst i
  once : todo.Nodup
  noted : ∀ i : Instance, Holds w.store .inst i → i.phase = .draining → i ∈ todo ∨ p.notes i.metadata.uid

variable {ro} {w₀ w w' : World} {p p' : Progress} {i new : Instance} {todo : List Instance}

theorem midPass_perm {todo' : List Instance} (hp : todo.Perm todo') (hu : MidPass ro w₀ todo w p) :
    MidPass ro w₀ todo' w p where
  others := hu.others
  now := hu.now
  mine := hu.mine
  held i hi := hu.held i (hp.mem_iff.mpr hi)
  once := hp.nodup_iff.mp hu.once
  noted i hi hd := (hu.noted i hi hd).imp_left hp.mem_iff.mp

theorem midPass_replaced {new : Option Instance} (hu : MidPass ro w₀ (i :: todo) w p)
    (hc : Replaced .inst w w' (some i) new) (hd : ∀ u, p.notes u → p'.notes u)
    (hnew : ∀ j ∈ new, j.spec.workload = ro.name ∧ p'.notes j.metadata.uid) : MidPass ro w₀ todo w' p' := by
  obtain ⟨hni, honce⟩ := List.nodup_cons.mp hu.once
  refine ⟨fun k hk => (hc.others k hk).trans (hu.others k hk), hc.now.trans hu.now, ?_, ?_, honce, ?_⟩
  · intro j hj
    rcases (hc.held j).mp hj with hj | ⟨hj, -⟩
    · exact (hnew j hj).1
    · exact hu.mine j hj
  · intro j hj
    have hjw := hu.held j (List.mem_cons_of_mem _ hj)
    refine (hc.held j).mpr (Or.inr ⟨hjw, ?_⟩)
    rintro _ ⟨⟩ hn
    have hij : j = i := listing_name_inj (k := .inst) (mem_listing.mpr hjw)
      (mem_listing.mpr (hu.held i List.mem_cons_self)) hn
    exact hni (hij ▸ hj)
  · intro j hj hph
    rcases (hc.held j).mp hj with hj | ⟨hj, hne⟩
    · exact Or.inr (hnew j hj).2
    · rcases hu.noted j hj hph with hm | hm
      · rcases List.mem_cons.mp hm with rfl | hm
        · exact absurd rfl (hne j rfl)
        · exact Or.inl hm
      · exact Or.inr (hd _ hm)

theorem midPass_noted (hu : MidPass ro w₀ (i :: todo) w p) (hd : ∀ u, p.notes u → p'.notes u)
    (hi : p'.notes i.metadata.uid) : MidPass ro w₀ todo w p' := by
  refine ⟨hu.others, hu.now, hu.mine, fun j hj => hu.held j (List.mem_cons_of_mem _ hj),
    (List.nodup_cons.mp hu.once).2, ?_⟩
  intro j hj hph
  rcases hu.noted j hj hph with hm | hm
  · rcases List.mem_cons.mp hm with rfl | hm
    · exact Or.inr hi
    · exact Or.inl hm
  · exact Or.inr (hd _ hm)

theorem midPass_created (hu : MidPass ro w₀ todo w p) (hc : Replaced .inst w w' none (some new))
    (hw : new.spec.workload = ro.name) (hp : new.phase = .pending) : MidPass ro w₀ todo w' p := by
  have hcases : ∀ j : Instance, Holds w'.store .inst j → j = new ∨ Holds w.store .inst j := by
    intro j hj
    rcases (hc.held j).mp hj with hj | ⟨hj, -⟩
    · exact Or.inl (Option.some.inj hj).symm
    · exact Or.inr hj
  refine ⟨fun k hk => (hc.others k hk).trans (hu.others k hk), hc.now.trans hu.now, ?_, ?_, hu.once, ?_⟩
  · intro j hj
    rcases hcases j hj with rfl | hj
    · exact hw
    · exact hu.mine j hj
  · exact fun j hj => (hc.held j).mpr (Or.inr ⟨hu.held j hj, fun c hc => by cases hc⟩)
  · intro j hj hph
    rcases hcases j hj with rfl | hj
    · rw [hp] at hph
      cases hph
    · exact hu.noted j hj hph

variable (ro) in
/- What one more piece of a pass does: `done` of the list has been seen to. -/
structure Handled (w₀ w : World) (todo out : List Instance) (marked made : ℕ) (w' : World) (p' : Progress) : Prop where
  midPass : MidPass ro w₀ todo w' p'
  books : Books ro w w' out marked made

variable {h : Log}

theorem yields_delete (hu : MidPass ro w₀ (i :: todo) w p) :
    Yields ro.name (fun w' p' => p' = p ∧ Handled ro w₀ w todo [i] 0 0 w' p') (deleteInstance p i) h w := by
  refine yields_deleteInstance (hu.held i List.mem_cons_self) fun w' hc => ⟨rfl, ?_, books_removed hc⟩
  exact midPass_replaced hu hc (fun _ hn => hn) fun j hj => by cases hj

theorem yields_retire (reason : String) (hu : MidPass ro w₀ (i :: todo) w p) :
    Yields ro.name (Handled ro w₀ w todo [i] (one (i.phase = .ready)) 0) (retire reason p i) h w := by
  unfold retire
  split
  · rename_i hp
    rw [show one (i.phase = .ready) = 0 by simp [one, hp]]
    exact guards_mono (fun _ _ _ hq => hq.2) _ _ _ (yields_delete hu)
  · rename_i hp
    rw [show one (i.phase = .ready) = 1 by simp [one, not_not.mp hp]]
    refine yields_retireReady reason (hu.held i List.mem_cons_self) fun w' new p' hc hspec hph hdl => ?_
    obtain ⟨hnew, hold⟩ := notes_insert hdl
    refine ⟨midPass_replaced hu hc hold ?_, books_marked hc hph⟩
    rintro _ ⟨⟩
    exact ⟨by rw [hspec]; exact hu.mine i (hu.held i List.mem_cons_self), hnew⟩

theorem yields_create (hn : wl.metadata.name = ro.name) (hu : MidPass ro w₀ todo w p) :
    Yields ro.name (Handled ro w₀ w todo [] 0 1) (createInstance wl container ro.hash p) h w :=
  yields_createInstance hn fun _ _ hc hw hh hnode hp =>
    ⟨midPass_created hu hc hw hp, books_created hc (outlook_new hh hnode hp)⟩

/-! ## The loops -/

theorem handled_trans {todo' out out' : List Instance} {marked marked' made made' : ℕ} {w'' : World} {p'' : Progress}
    (hb : Books ro w w' out marked made) (h : Handled ro w₀ w' todo' out' marked' made' w'' p'') :
    Handled ro w₀ w todo' (out ++ out') (marked + marked') (made + made') w'' p'' :=
  ⟨h.midPass, books_trans hb h.books⟩

theorem yields_loop {f : Progress → Instance → Code Progress} {I : Progress → Prop} {l later : List Instance}
    (hf : ∀ i ∈ l, ∀ todo h w p, I p → MidPass ro w₀ (i :: todo) w p →
      Yields ro.name (fun w' p' => I p' ∧ Handled ro w₀ w todo [i] (one (i.phase = .ready)) 0 w' p') (f p i) h w)
    (hi : I p) (hu : MidPass ro w₀ (l ++ later) w p) :
    Yields ro.name (fun w' p' => I p' ∧ Handled ro w₀ w later l (readyCount l) 0 w' p') (l.foldlM f p) h w := by
  induction l generalizing w p h with
  | nil => exact ⟨hi, hu, books_refl⟩
  | cons i l ih =>
    rw [List.foldlM_cons]
    refine guards_bind (hf i List.mem_cons_self _ h w p hi hu) ?_
    rintro h' w' p' ⟨hi', hd⟩
    refine guards_mono ?_ _ _ _ (ih (fun j hj => hf j (List.mem_cons_of_mem _ hj)) hi' hd.midPass)
    rintro _ w'' p'' ⟨hi'', hd'⟩
    have hready : readyCount (i :: l) = one (i.phase = .ready) + readyCount l :=
      List.countP_cons.trans (Nat.add_comm _ _)
    rw [hready]
    exact ⟨hi'', handled_trans hd.books hd'⟩

theorem yields_creates (hn : wl.metadata.name = ro.name) (l : List ℕ) (hu : MidPass ro w₀ todo w p) :
    Yields ro.name (Handled ro w₀ w todo [] 0 l.length)
      (l.foldlM (fun p _ => createInstance wl container ro.hash p) p) h w := by
  induction l generalizing w p h with
  | nil => exact ⟨hu, books_refl⟩
  | cons n l ih =>
    rw [List.foldlM_cons]
    refine guards_bind (yields_create hn hu) fun h' w' p' hd => ?_
    refine guards_mono (fun _ w'' p'' hd' => ?_) _ _ _ (ih hd.midPass)
    rw [List.length_cons, Nat.add_comm]
    exact handled_trans hd.books hd'

theorem yields_expireDrain (hu : MidPass ro w₀ (i :: todo) w p) : Yields ro.name (fun w' p' =>
      (p' = p ∧ Handled ro w₀ w todo [i] 0 0 w' p') ∨
      ((∀ t, p.deadlines[i.metadata.uid]? = some t → w.now < t) ∧ Handled ro w₀ w todo [] 0 0 w' p'))
      (expireDrain p i) h w := by
  unfold expireDrain
  split
  · rename_i hnone
    refine yields_call fun suffix t w' h' he _ => ?_
    cases he
    let p' : Progress := { p with deadlines := p.deadlines.insert i.metadata.uid (w.now + drainTimeout i) }
    obtain ⟨hi, hold⟩ := notes_insert (show p'.deadlines = p.deadlines.insert i.metadata.uid _ from rfl)
    refine Or.inr ⟨fun t ht => ?_, midPass_noted hu hold hi, books_refl⟩
    rw [hnone] at ht
    cases ht
  · rename_i deadline hsome
    refine yields_call fun suffix t w' h' he _ => ?_
    cases he
    split
    · rename_i hearly
      refine Or.inr ⟨fun t ht => ?_, midPass_noted hu (fun _ hn => hn) ⟨deadline, hsome⟩, books_refl⟩
      obtain rfl := Option.mem_unique ht hsome
      exact hearly
    · exact guards_mono (fun _ _ _ hq => Or.inl hq) _ _ _ (yields_delete hu)

theorem yields_expire (late : Prop) {l later : List Instance}
    (hlate : late → ∀ i ∈ l, ∃ t, p.deadlines[i.metadata.uid]? = some t ∧ t ≤ w₀.now)
    (hu : MidPass ro w₀ (l ++ later) w p) :
    Yields ro.name (fun w' p' => ∃ gone, (late → gone = l) ∧ Handled ro w₀ w later gone 0 0 w' p')
      (l.foldlM expireDrain p) h w := by
  induction l generalizing w p h with
  | nil => exact ⟨[], fun _ => rfl, hu, books_refl⟩
  | cons i l ih =>
    rw [List.foldlM_cons]
    refine guards_bind (yields_expireDrain hu) ?_
    rintro h' w' p' (⟨rfl, hd⟩ | ⟨hearly, hd⟩)
    · refine guards_mono ?_ _ _ _ (ih (fun hl j hj => hlate hl j (List.mem_cons_of_mem _ hj)) hd.midPass)
      rintro _ w'' p'' ⟨gone, hgone, hd'⟩
      exact ⟨i :: gone, fun hl => by rw [hgone hl], handled_trans hd.books hd'⟩
    · have hnot : ¬ late := fun hl => by
        obtain ⟨t, ht, hpast⟩ := hlate hl i List.mem_cons_self
        have := hearly t ht
        rw [hu.now] at this
        omega
      refine guards_mono ?_ _ _ _ (ih (fun hl => absurd hl hnot) hd.midPass)
      rintro _ w'' p'' ⟨gone, -, hd'⟩
      exact ⟨gone, fun hl => absurd hl hnot, handled_trans hd.books hd'⟩

/-! ## The whole pass -/

/- How many instances `advanceFresh` creates: the missing ones, or the one that a rollout step surges. -/
def additions (wl : Workload) (g : Groups) : ℕ :=
  let surplus : Int := g.fresh.length - wl.spec.replicas
  let missing : Int := wl.spec.replicas - g.fresh.length - g.retiring.length
  if surplus > 0 then 0
  else if missing > 0 then missing.toNat
  else match g.retiring with
    | [] => 0
    | _ :: _ =>
      if g.draining ≠ [] then 0
      else if (g.fresh.length : Int) + g.retiring.length = wl.spec.replicas ∧ (readyCount g.fresh : Int) = g.fresh.length then 1
      else 0

section Advance
variable {wl : Workload} {container : Container} {g : Groups}

variable (ro) in
/- What `advanceFresh` has done with the groups of the pass. -/
def Advanced (w₀ w : World) (wl : Workload) (g : Groups) (w' : World) (p' : Progress) : Prop :=
  ∃ todo, todo ⊆ g.fresh ++ g.retiring ∧
    Handled ro w₀ w todo (retired wl g) (readyCount (retired wl g)) (additions wl g) w' p'

theorem yields_victim {victim : Instance} {rest : List Instance} (reason : String) (hg : g.retiring = victim :: rest)
    (hu : MidPass ro w₀ (g.fresh ++ g.retiring) w p) :
    Yields ro.name (fun w' p' => ∃ todo, todo ⊆ g.fresh ++ g.retiring ∧
      Handled ro w₀ w todo [victim] (readyCount [victim]) 0 w' p') (retire reason p victim) h w := by
  have hperm : (g.fresh ++ g.retiring).Perm (victim :: (g.fresh ++ rest)) := by
    rw [hg]
    exact List.perm_middle
  have hone : readyCount [victim] = one (victim.phase = .ready) := by simp [readyCount, one, List.countP_cons]
  rw [hone]
  refine guards_mono (fun _ w' p' hd => ⟨_, ?_, hd⟩) _ _ _ (yields_retire reason (midPass_perm hperm hu))
  exact fun i hi => hperm.mem_iff.mpr (List.mem_cons_of_mem _ hi)

theorem yields_advanceFresh (h0 : 0 ≤ wl.spec.replicas) (hn : wl.metadata.name = ro.name)
    (hu : MidPass ro w₀ (g.fresh ++ g.retiring) w p) :
    Yields ro.name (Advanced ro w₀ w wl g) (advanceFresh wl container ro.hash g p) h w := by
  have hsame : Handled ro w₀ w (g.fresh ++ g.retiring) [] 0 0 w p := ⟨hu, books_refl⟩
  unfold advanceFresh Advanced retired additions
  dsimp only
  split
  · rw [if_neg (by omega)]
    generalize ((g.fresh.length : Int) - wl.spec.replicas).toNat = n
    have hsplit : g.fresh ++ g.retiring = g.fresh.take n ++ (g.fresh.drop n ++ g.retiring) := by
      rw [← List.append_assoc, List.take_append_drop]
    rw [hsplit] at hu
    refine guards_mono (fun _ w' p' hd => ⟨_, ?_, hd.2⟩) _ _ _ (yields_loop (I := fun _ => True) ?_ trivial hu)
    · exact fun i _ todo h w p _ hu => guards_mono (fun _ _ _ hd => ⟨trivial, hd⟩) _ _ _ (yields_retire _ hu)
    · rw [hsplit]
      exact List.subset_append_right _ _
  · split
    · refine guards_mono (fun _ w' p' hd => ⟨_, List.Subset.refl _, ?_⟩) _ _ _ (yields_creates hn _ hu)
      rw [List.length_range] at hd
      exact hd
    · cases hg : g.retiring with
      | nil => exact ⟨_, List.Subset.refl _, by rw [hg] at hsame; exact hsame⟩
      | cons victim rest =>
        dsimp only
        split
        · exact ⟨_, List.Subset.refl _, by rw [hg] at hsame; exact hsame⟩
        · unfold rollStep rollRetired
          dsimp only
          rw [← hg]
          split
          · exact guards_mono (fun _ w' p' hd => ⟨_, List.Subset.refl _, hd⟩) _ _ _ (yields_create hn hu)
          · split
            · exact yields_victim _ hg hu
            · split
              · exact yields_victim _ hg hu
              · exact ⟨_, List.Subset.refl _, hsame⟩

theorem midPass_listed (drainingNodes : List String) (p : Progress)
    (hmine : ∀ i : Instance, Holds w.store .inst i → i.spec.workload = ro.name) :
    let g := classify ro.hash drainingNodes (w.store.listing .inst)
    MidPass ro w (g.doomed ++ (g.draining ++ (g.fresh ++ g.retiring))) w p := by
  intro g
  have hrole : ∀ r, (ofRole ro.hash drainingNodes r (w.store.listing .inst)).Nodup :=
    fun r => ((listing_names w.store .inst).of_map).filter _
  have hsorted : ∀ r, (sortNewestFirst (ofRole ro.hash drainingNodes r (w.store.listing .inst))).Nodup :=
    fun r => (List.perm_insertionSort newerFirst _).nodup_iff.mpr (hrole r)
  refine ⟨fun _ _ => rfl, rfl, hmine, ?_, ?_, ?_⟩
  · intro i hi
    simp only [g, classify, List.mem_append, mem_sortNewestFirst, mem_ofRole] at hi
    exact mem_listing.mp (by tauto)
  · simp only [g, classify, List.nodup_append', hrole, hsorted, true_and, List.disjoint_append_right, and_assoc]
    -- Two groups share no instance: it would have both roles.
    refine ⟨?_, ?_, ?_, ?_, ?_, ?_⟩ <;> intro i hi hi' <;>
      simp only [mem_sortNewestFirst, mem_ofRole] at hi hi' <;> rw [hi.2] at hi' <;> cases hi'.2
  · intro i hi hd
    refine Or.inl (List.mem_append_right _ (List.mem_append_left _ ?_))
    exact mem_ofRole.mpr ⟨mem_listing.mpr hi, roleOf_draining.mpr hd⟩

variable (ro) in
/- What a pass has done: `late` says that the deadlines of all draining instances had passed. -/
structure Passed (late : Prop) (wl : Workload) (g : Groups) (w w' : World) (p' : Progress) : Prop where
  others : ∀ k, k ≠ .inst → w'.store.tbl k = w.store.tbl k
  now : w'.now = w.now
  mine : ∀ i : Instance, Holds w'.store .inst i → i.spec.workload = ro.name
  noted : ∀ i : Instance, Holds w'.store .inst i → i.phase = .draining → p'.notes i.metadata.uid
  books : ∃ gone, (late → gone = g.draining) ∧
    Books ro w w' (g.doomed ++ (gone ++ retired wl g)) (readyCount (retired wl g)) (additions wl g)

theorem yields_advance (late : Prop) (drainingNodes : List String) (h0 : 0 ≤ wl.spec.replicas)
    (hn : wl.metadata.name = ro.name) (hmine : ∀ i : Instance, Holds w.store .inst i → i.spec.workload = ro.name)
    (hlate : late → ∀ i : Instance, Holds w.store .inst i → i.phase = .draining →
      ∃ t, p.deadlines[i.metadata.uid]? = some t ∧ t ≤ w.now) :
    Yields ro.name (Passed ro late wl (classify ro.hash drainingNodes (w.store.listing .inst)) w)
      (advance wl container ro.hash (w.store.listing .inst) drainingNodes p) h w := by
  have hu := midPass_listed drainingNodes p hmine
  unfold advance
  dsimp only at hu ⊢
  set g := classify ro.hash drainingNodes (w.store.listing .inst) with hg
  have hdoomed : ∀ i ∈ g.doomed, i.phase ≠ .ready := fun i hi => roleOf_doomed (mem_ofRole.mp hi).2
  have hdraining : ∀ i ∈ g.draining, Holds w.store .inst i ∧ i.phase = .draining := fun i hi =>
    ⟨mem_listing.mp (mem_ofRole.mp hi).1, roleOf_draining.mp (mem_ofRole.mp hi).2⟩
  have hstay : ∀ i ∈ g.fresh ++ g.retiring, i.phase ≠ .draining := by
    intro i hi hd
    simp only [hg, classify, List.mem_append, mem_sortNewestFirst, mem_ofRole, roleOf_draining.mpr hd, reduceCtorEq,
      and_false, or_self] at hi
  refine guards_bind (yields_loop (I := (· = p)) ?_ rfl hu) ?_
  · rintro i hi todo h w' _ rfl hu'
    rw [show one (i.phase = .ready) = 0 by simp [one, hdoomed i hi]]
    exact yields_delete hu'
  rintro h₁ w₁ _ ⟨rfl, hd₁⟩
  refine guards_bind (yields_expire late ?_ hd₁.midPass) ?_
  · exact fun hl i hi => hlate hl i (hdraining i hi).1 (hdraining i hi).2
  rintro h₂ w₂ p₂ ⟨gone, hgone, hd₂⟩
  refine guards_mono ?_ _ _ _ (yields_advanceFresh h0 hn hd₂.midPass)
  rintro _ w₃ p₃ ⟨todo, hsub, hd₃⟩
  have hb := books_trans hd₁.books (books_trans hd₂.books hd₃.books)
  rw [readyCount_zero hdoomed, Nat.zero_add, Nat.zero_add, Nat.zero_add, Nat.zero_add] at hb
  refine ⟨hd₃.midPass.others, hd₃.midPass.now, hd₃.midPass.mine, ?_, gone, hgone, hb⟩
  intro i hi hd
  exact (hd₃.midPass.noted i hi hd).resolve_left fun hm => hstay i (hsub hm) hd

end Advance

end MidPass

/-! ## From the listings to the status -/

section Staged
variable {hs : Hasher} (ro : Rollout hs)

/- The store holds the one workload, its instances, and the nodes of which those in `ro.draining` are drained. -/
structure Staged (s : Store) : Prop where
  workload : ∃ wl : Workload, s.listing .workload = [wl] ∧ wl.metadata.name = ro.name ∧ wl.spec = ro.spec
  nodes : drainingNames (s.listing .node) = ro.draining
  mine : ∀ i : Instance, Holds s .inst i → i.spec.workload = ro.name

/- Every draining instance has a deadline, and the clock has reached it. -/
def Expired (w : World) (d : Deadlines) : Prop :=
  ∀ i : Instance, Holds w.store .inst i → i.phase = .draining → ∃ t, d[i.metadata.uid]? = some t ∧ t ≤ w.now

def Rollout.groups (w : World) : Groups := classify ro.hash ro.draining (w.store.listing .inst)

/- What a whole pass of the controller has done to the workload and what it remembers. -/
structure Reconciled (w : World) (d : Deadlines) (w' : World) (p : Progress) : Prop where
  staged : Staged ro w'.store
  now : w'.now = w.now
  noted : ∀ i : Instance, Holds w'.store .inst i → i.phase = .draining → p.notes i.metadata.uid
  books : ∃ wl : Workload, wl.spec = ro.spec ∧ ∃ gone, (Expired w d → gone = (ro.groups w).draining) ∧
    Books ro w w' ((ro.groups w).doomed ++ (gone ++ retired wl (ro.groups w)))
      (readyCount (retired wl (ro.groups w))) (additions wl (ro.groups w))

variable {ro} {w w' : World} {h : Log} {p : Progress}

theorem prune_keeps {d : Deadlines} {t : Int} (hi : Holds w.store .inst i) (ht : d[i.metadata.uid]? = some t) :
    (pruneDeadlines (w.store.listing .inst) d)[i.metadata.uid]? = some t := by
  unfold pruneDeadlines
  rw [Table.get_filter, ht]
  refine Option.filter_eq_some_iff.mpr ⟨rfl, List.any_eq_true.mpr ⟨i, mem_listing.mpr hi, ?_⟩⟩
  simp

theorem replaced_single {k : Kind} {cur new : k.Obj} (hl : w.store.listing k = [cur])
    (hc : Replaced k w w' (some cur) (some new)) : w'.store.listing k = [new] := by
  refine List.perm_singleton.mp ((List.perm_ext_iff_of_nodup (listing_names w'.store k).of_map
    (List.nodup_singleton new)).mpr fun o => ?_)
  rw [mem_listing, hc.held, List.mem_singleton]
  constructor
  · rintro (ho | ⟨ho, hne⟩)
    · exact (Option.some.inj ho).symm
    · rw [← mem_listing, hl, List.mem_singleton] at ho
      exact absurd (by rw [ho]) (hne cur rfl)
  · rintro rfl
    exact Or.inl rfl

theorem yields_updateStatus {hash : String} {insts : List Instance} (hl : w.store.listing .workload = [wl]) :
    Yields ro.name (fun w' p' => p' = p ∧ w'.now = w.now ∧ (∀ k, k ≠ .workload → w'.store.tbl k = w.store.tbl k) ∧
      ∃ wl' : Workload, w'.store.listing .workload = [wl'] ∧ wl'.metadata.name = wl.metadata.name ∧ wl'.spec = wl.spec)
      (updateStatus wl hash insts p) h w := by
  have hwl : Holds w.store .workload wl := mem_listing.mp (by rw [hl]; exact List.mem_singleton_self wl)
  unfold updateStatus
  extract_lets ready next
  split
  · exact ⟨rfl, rfl, fun _ _ => rfl, wl, hl, rfl, rfl⟩
  · refine yields_call fun suffix r w' h' he _ => ?_
    obtain ⟨hv, hput⟩ := exec_put_held (k := .workload) (c := { suffix := suffix }) rfl
      (o := { wl with status := some next }) hwl rfl
    obtain ⟨rfl, rfl⟩ := Prod.mk.inj (he.symm.trans hput)
    have hc := replaced_write (k := .workload) (o := { wl with status := some next }) hwl rfl hv
    exact ⟨rfl, hc.now, hc.others, _, replaced_single hl hc, rfl, rfl⟩

theorem sweep_idle {live : List String} {insts : List Instance} (hlive : ∀ i ∈ insts, i.spec.workload ∈ live)
    (names : List String) (p : Progress) : names.foldlM (sweepOrphans live insts) p = pure p := by
  induction names with
  | nil => rfl
  | cons n names ih =>
    have hn : sweepOrphans live insts p n = pure p := by
      unfold sweepOrphans
      split
      · rfl
      · rename_i hn
        have hnone : insts.filter (fun inst => inst.spec.workload = n) = [] := by
          refine List.filter_eq_nil_iff.mpr fun i hi he => hn ?_
          rw [← of_decide_eq_true he]
          exact hlive i hi
        rw [hnone]
        rfl
    rw [List.foldlM_cons, hn]
    exact ih

theorem yields_reconcileWorkload {d : Deadlines} (h0 : 0 ≤ ro.spec.replicas)
    (hone : ro.spec.template.containers = [container]) (hst : Staged ro w.store) (hl : w.store.listing .workload = [wl])
    (hname : wl.metadata.name = ro.name) (hspec : wl.spec = ro.spec)
    (hp : p.deadlines = pruneDeadlines (w.store.listing .inst) d) : Yields ro.name (Reconciled ro w d)
      (reconcileWorkload hs (w.store.listing .inst) (drainingNames (w.store.listing .node)) p wl) h w := by
  have hall : (w.store.listing .inst).filter (fun i => i.spec.workload = wl.metadata.name) = w.store.listing .inst := by
    refine List.filter_eq_self.mpr fun i hi => decide_eq_true ?_
    rw [hname]
    exact hst.mine i (mem_listing.mp hi)
  have hlate : Expired w d → ∀ i : Instance, Holds w.store .inst i → i.phase = .draining →
      ∃ t, p.deadlines[i.metadata.uid]? = some t ∧ t ≤ w.now := by
    intro hexp i hi hd
    obtain ⟨t, ht, hpast⟩ := hexp i hi hd
    exact ⟨t, by rw [hp]; exact prune_keeps hi ht, hpast⟩
  unfold reconcileWorkload
  rw [hspec, hone, hst.nodes]
  dsimp only
  rw [ro.hashed]
  dsimp only
  rw [hall]
  refine guards_bind (yields_advance (Expired w d) ro.draining (by rw [hspec]; exact h0) hname hst.mine
    hlate) ?_
  intro h₁ w₁ p₁ hpass
  have hl₁ : w₁.store.listing .workload = [wl] := (listing_of_tbl (hpass.others .workload (by decide))).trans hl
  refine guards_mono ?_ _ _ _ (yields_updateStatus hl₁)
  rintro _ w₂ _ ⟨rfl, hnow, hothers, wl', hl', hname', hspec'⟩
  have hinst : w₂.store.tbl .inst = w₁.store.tbl .inst := hothers .inst (by decide)
  have hheld : ∀ i : Instance, Holds w₂.store .inst i → Holds w₁.store .inst i := fun i => holds_of_tbl hinst
  refine ⟨⟨⟨wl', hl', hname'.trans hname, hspec'.trans hspec⟩, ?_, fun i hi => hpass.mine i (hheld i hi)⟩,
    hnow.trans hpass.now, fun i hi hd => hpass.noted i (hheld i hi) hd, wl, hspec, ?_⟩
  · rw [listing_of_tbl (hothers .node (by decide)), listing_of_tbl (hpass.others .node (by decide))]
    exact hst.nodes
  · obtain ⟨gone, hgone, hb⟩ := hpass.books
    refine ⟨gone, hgone, fun r => ?_⟩
    have hdue : ro.due w₂ r = ro.due w₁ r := count_other_kind w₁.store _ hinst
    rw [hdue]
    exact hb r

theorem yields_reconcile (order : List String → List String) (d : Deadlines) (h0 : 0 ≤ ro.spec.replicas)
    (hone : ro.spec.template.containers = [container]) (hst : Staged ro w.store) :
    Yields ro.name (Reconciled ro w d) (workloadReconcile hs order d) h w := by
  obtain ⟨wl, hl, hname, hspec⟩ := hst.workload
  refine yields_list fun h₁ => yields_list fun h₂ => yields_list fun h₃ => ?_
  unfold reconcileListed
  rw [hl]
  refine guards_bind (P := fun _ => Reconciled ro w d) ?_ fun h' w' p' hr => ?_
  · rw [List.foldlM_cons]
    refine guards_bind (yields_reconcileWorkload (d := d) h0 hone hst hl hname hspec rfl) ?_
    exact fun _ _ _ hr => hr
  · rw [sweep_idle]
    · exact hr
    · intro i hi
      rw [hst.mine i (mem_listing.mp hi)]
      simp [hname]

end Staged

end Klite
