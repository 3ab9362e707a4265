import Klite.Store.Rules

/-!
# Reasoning about programs call by call

One rule for each store call, in terms of what the caller has seen, and one for
the read-judge-write loop. `Seen` survives whatever other callers do in between.
-/

namespace Klite
open Lib

def After (h : Log) (w : World) : Prop := ∀ e ∈ h, klited.le e.post w

def Seen (h : Log) (k : Kind) (o : k.Obj) : Prop := ∃ e ∈ h, Holds e.post.store k o

variable {k : Kind}

theorem seen_mono {h h' : Log} {o : k.Obj} (hs : h <:+ h') (hseen : Seen h k o) : Seen h' k o := by
  obtain ⟨e, he, ho⟩ := hseen
  exact ⟨e, hs.subset he, ho⟩

variable {h : Log}

theorem seen_pinned {w : World} {o cur : k.Obj} (hseen : Seen h k o) (ha : After h w)
    (hl : w.store.lookup k (metaOf o).name = some (cur, (metaOf o).resourceVersion)) : cur = o := by
  obtain ⟨e, he, ho⟩ := hseen
  exact evolves_pinned ho (ha e he).1 hl

theorem seen_positive {o : k.Obj} (hseen : Seen h k o) : 0 < (metaOf o).resourceVersion := by
  obtain ⟨e, he, ho⟩ := hseen
  exact (lookup_some ho).2.2.2.1

variable {rev : Int} {c : Choice}

section Rules
variable {R : Rights} {h : Log} {w : World} {k : Kind} {α : Type} {Q : Log → α → Prop}

theorem within_put {o o' : k.Obj} (hseen : Seen h k o) (ha : After h w)
    (hn : (metaOf o').name = (metaOf o).name) (hr : R.edit k h w o o') :
    Within R h w (.put k o' (metaOf o).resourceVersion) := by
  refine Or.inr ⟨seen_positive hseen, ?_⟩
  intro cur hl
  rw [hn] at hl
  rw [seen_pinned hseen ha hl]
  exact hr

theorem within_remove {o : k.Obj} (hseen : Seen h k o) (ha : After h w) (hr : R.remove k h w o) :
    Within R h w (.deleteIfRevision k (metaOf o).name (metaOf o).resourceVersion) := by
  intro cur hl
  rw [seen_pinned hseen ha hl]
  exact hr

variable {n : String}

theorem obeys_get {f : Except StoreErr (k.Obj × Int) → Code α}
    (herr : ∀ c w e, After h w → (exec c (.get k n) w).1 = .error e → Obeys R Q (f (.error e)) (klited.event c (.get k n) w :: h))
    (hok : ∀ c w o, After h w → (exec c (.get k n) w).1 = .ok (o, (metaOf o).resourceVersion) →
      Holds w.store k o → (metaOf o).name = n →
      Obeys R Q (f (.ok (o, (metaOf o).resourceVersion))) (klited.event c (.get k n) w :: h)) :
    Obeys R Q (get k n >>= f) h := by
  refine follows_call fun w ha => ⟨trivial, fun c => ?_⟩
  change Obeys R Q (f (exec c (.get k n) w).1) _
  cases hr : (exec c (.get k n) w).1 with
  | error e => exact herr c w e ha hr
  | ok x =>
    obtain ⟨o, r⟩ := x
    have hl := exec_get_ok hr
    have hs := lookup_some hl
    obtain ⟨hn, rfl, -⟩ := hs
    exact hok c w o ha hr (holds_of_lookup hl) hn

theorem follows_list {S : Log → World → Op → Prop} {f : Except StoreErr (List k.Obj × Int) → Code α}
    (hs : ∀ w, S h w (.list k)) (herr : ∀ c w e, After h w → (exec c (.list k) w).1 = .error e →
      Follows klited S Q (f (.error e)) (klited.event c (.list k) w :: h))
    (hok : ∀ c w, After h w → (exec c (.list k) w).1 = .ok (w.store.listing k, w.store.rev) →
      Follows klited S Q (f (.ok (w.store.listing k, w.store.rev))) (klited.event c (.list k) w :: h)) :
    Follows klited S Q (list k >>= f) h := by
  refine follows_call fun w ha => ⟨hs w, fun c => ?_⟩
  change Follows klited S Q (f (exec c (.list k) w).1) _
  cases hr : (exec c (.list k) w).1 with
  | error e => exact herr c w e ha hr
  | ok x =>
    have hx : x = (w.store.listing k, w.store.rev) := by
      simp only [exec] at hr
      split at hr
      · exact (Except.ok.inj hr).symm
      · cases hr
    subst hx
    exact hok c w ha hr

theorem obeys_list {f : Except StoreErr (List k.Obj × Int) → Code α}
    (herr : ∀ c w e, After h w → (exec c (.list k) w).1 = .error e →
      Obeys R Q (f (.error e)) (klited.event c (.list k) w :: h))
    (hok : ∀ c w, After h w → (exec c (.list k) w).1 = .ok (w.store.listing k, w.store.rev) →
      Obeys R Q (f (.ok (w.store.listing k, w.store.rev))) (klited.event c (.list k) w :: h)) :
    Obeys R Q (list k >>= f) h :=
  follows_list (fun _ => trivial) herr hok

theorem follows_put {S : Log → World → Op → Prop} {o : k.Obj} {f : Except StoreErr Int → Code α}
    (hs : ∀ w, After h w → S h w (.put k o rev))
    (hf : ∀ c w r, After h w → (exec c (.put k o rev) w).1 = r → Follows klited S Q (f r) (klited.event c (.put k o rev) w :: h)) :
    Follows klited S Q (put k o rev >>= f) h :=
  follows_call fun w ha => ⟨hs w ha, fun c => hf c w _ ha rfl⟩

theorem obeys_put {o : k.Obj} {f : Except StoreErr Int → Code α} (hs : ∀ w, After h w → Within R h w (.put k o rev))
    (hf : ∀ c w r, After h w → (exec c (.put k o rev) w).1 = r → Obeys R Q (f r) (klited.event c (.put k o rev) w :: h)) :
    Obeys R Q (put k o rev >>= f) h :=
  follows_put hs hf

theorem obeys_delete {f : Except StoreErr Unit → Code α} (hs : ∀ w, After h w → Within R h w (.delete k n))
    (hf : ∀ e r, Obeys R Q (f r) (e :: h)) : Obeys R Q (delete k n >>= f) h :=
  follows_call fun w ha => ⟨hs w ha, fun _ => hf _ _⟩

theorem obeys_deleteIfRevision {f : Except StoreErr Unit → Code α}
    (hs : ∀ w, After h w → Within R h w (.deleteIfRevision k n rev))
    (hf : ∀ c w r, After h w → Obeys R Q (f r) (klited.event c (.deleteIfRevision k n rev) w :: h)) :
    Obeys R Q (deleteIfRevision k n rev >>= f) h :=
  follows_call fun w ha => ⟨hs w ha, fun c => hf c w _ ha⟩

-- A call that touches no object: the clock, the random suffix, a message, a wait.
def Op.quiet : Op → Bool
  | .now | .hexSuffix | .send _ | .pause => true
  | _ => false

theorem obeys_quiet {op : Op} {f : Res op → Code α} (hq : op.quiet) (hf : ∀ c w r, After h w → (exec c op w).1 = r →
      Obeys R Q (f r) (klited.event c op w :: h)) : Obeys R Q (Prog.perform op >>= f) h := by
  refine follows_call fun w ha => ⟨?_, fun c => hf c w _ ha rfl⟩
  cases op with
  | put k o rev => cases hq
  | delete k n => cases hq
  | deleteIfRevision k n rev => cases hq
  | _ => trivial

theorem put_refused {o : k.Obj} {e : StoreErr} (hr : (exec c (.put k o rev) w).1 = .error e) (hc : e.cls ≠ .other) :
    (exec c (.put k o rev) w).2 = w := by
  simp only [exec, answer] at hr ⊢
  cases hf : c.fault with
  | lost => rfl
  | unacked =>
    rw [hf] at hr
    exact absurd (congrArg StoreErr.cls (Except.error.inj hr)).symm hc
  | none =>
    rw [hf] at hr
    have hs : (w.store.put w.unix k o rev).2 = w.store := by
      simp only [Store.put, Store.putCreate, Store.putUpsert, Store.putCAS] at hr ⊢
      grind
    dsimp only
    rw [hs]

theorem put_conflict {o : k.Obj} {e : StoreErr} (hr : (exec c (.put k o rev) w).1 = .error e) (hc : e.isConflict) :
    (exec c (.put k o rev) w).2 = w :=
  put_refused hr (by rw [of_decide_eq_true hc]; decide)

/-- The read-judge-write loop obeys when every verdict writes an edit of the object
judged. `I` is what the loop keeps from round to round. -/
theorem obeys_casLoop {name : String} {judge : k.Obj → Code (Verdict k α)}
    {failed : StoreErr → α} {raced : α} (I : Log → Prop) (n : ℕ) (hi : I h)
    (hget : ∀ h' c w, I h' → I (klited.event c (.get k name) w :: h'))
    (hconf : ∀ h' c w o rev, I h' → (exec c (.put k o rev) w).2 = w →
      I (klited.event c (.put k o rev) w :: h'))
    (hraced : ∀ h', I h' → Q h' raced)
    (hfailed : ∀ h' e, Q h' (failed e))
    (hjudge : ∀ h' o, I h' → Seen h' k o → (metaOf o).name = name →
      Obeys R (fun h'' v => I h'' ∧ match v with
        | .done a => Q h'' a
        | .write o' a => (metaOf o').name = name ∧ (∀ w, After h'' w → R.edit k h'' w o o') ∧
            ∀ c w, Q (klited.event c (.put k o' (metaOf o).resourceVersion) w :: h'') a) (judge o) h') :
    Obeys R Q (casLoop k name judge failed raced n) h := by
  induction n generalizing h with
  | zero => exact hraced h hi
  | succ n ih =>
    refine obeys_get (fun c w e _ _ => hfailed _ e) ?_
    intro c w o _ _ ho hn
    have hseen : Seen (klited.event c (.get k name) w :: h) k o := ⟨_, List.mem_cons_self, ho⟩
    refine follows_bind (hjudge _ o (hget h c w hi) hseen hn) ?_
    intro h' v hh' hv
    cases v with
    | done a => exact hv.2
    | write o' a =>
      obtain ⟨hi', hn', hedit, hq⟩ := hv
      refine obeys_put
        (fun w ha => within_put (seen_mono hh' hseen) ha (hn'.trans hn.symm) (hedit w ha)) ?_
      intro c w r ha hr
      cases r with
      | ok rev => exact hq c w
      | error e =>
        dsimp only
        split
        · rename_i hc
          exact ih (hconf h' c w o' _ hi' (put_conflict hr hc))
        · exact hfailed _ e

theorem obeys_cas {name : String} {judge : k.Obj → Code (Verdict k α)}
    {failed : StoreErr → α} {raced : α} (n : ℕ)
    (hjudge : ∀ h' o, Seen h' k o → (metaOf o).name = name →
      Obeys R (fun h'' v => match v with
        | .done _ => True
        | .write o' _ => (metaOf o').name = name ∧ ∀ w, After h'' w → R.edit k h'' w o o')
        (judge o) h') :
    Abides R (casLoop k name judge failed raced n) h := by
  refine obeys_casLoop (fun _ => True) n trivial (fun _ _ _ _ => trivial)
    (fun _ _ _ _ _ _ _ => trivial) (fun _ _ => trivial) (fun _ _ => trivial) ?_
  intro h' o _ hseen hn
  refine follows_post ?_ (hjudge h' o hseen hn)
  intro h'' v hv
  cases v with
  | done a => exact ⟨trivial, trivial⟩
  | write o' a => exact ⟨trivial, hv.1, hv.2, fun _ _ => trivial⟩

end Rules

theorem put_ok {o o' : k.Obj} {w : World} (hseen : Seen h k o) (ha : After h w)
    (hn : (metaOf o').name = (metaOf o).name) (hr : (exec c (.put k o' (metaOf o).resourceVersion) w).1 = .ok rev) :
    Holds w.store k o ∧ (exec c (.put k o' (metaOf o).resourceVersion) w).2.store.lookup k (metaOf o).name =
      some (stamp o' (w.store.rev + 1), w.store.rev + 1) := by
  have hpos := seen_positive hseen
  have h0 : (metaOf o).resourceVersion ≠ revCreate := by unfold revCreate; omega
  have h1 : (metaOf o).resourceVersion ≠ revAny := by unfold revAny; omega
  simp only [exec, answer] at hr ⊢
  cases hf : c.fault with
  | lost => rw [hf] at hr; cases hr
  | unacked => rw [hf] at hr; cases hr
  | none =>
    rw [hf] at hr
    simp only [Store.put, Store.putCAS, if_neg h0, if_neg h1, if_pos hpos] at hr ⊢
    split at hr
    · rename_i hv
      rw [dif_pos hv]
      split at hr
      · rename_i cur r hg
        split at hr
        · rename_i hrev
          rw [if_pos hrev]
          have hl := lookup_of_get hg
          rw [hn, hrev] at hl
          have hcur := seen_pinned hseen ha hl
          refine ⟨?_, ?_⟩
          · unfold Holds
            rw [hl, hcur]
          · rw [lookup_write, if_pos hn]
        · cases hr
      · cases hr
    · cases hr

section Records
variable {R : Rights} {h : Log} {w : World} {op : Op} {s' : Store}

theorem change_record (hc : Change R h w op s') (k : Kind) (n : String) : s'.lookup k n = w.store.lookup k n ∨
    (∃ o, op = .put k o revCreate ∧ w.store.lookup k n = none ∧ R.create k h w o ∧ (metaOf o).name = n ∧
      s'.lookup k n = some (stamp (minted w.store w.unix o) (w.store.rev + 1), w.store.rev + 1)) ∨
    (∃ cur r o, op = .put k o r ∧ w.store.lookup k n = some (cur, r) ∧ R.edit k h w cur o ∧
      (metaOf o).name = n ∧ s'.lookup k n = some (stamp o (w.store.rev + 1), w.store.rev + 1)) ∨
    (∃ cur r, (op = .delete k n ∨ op = .deleteIfRevision k n r) ∧
      w.store.lookup k n = some (cur, r) ∧ R.remove k h w cur ∧ s'.lookup k n = none) := by
  cases hc with
  | same => exact Or.inl rfl
  | create k' o hv hn hr =>
    by_cases hk : k = k'
    · subst hk
      have hm : (metaOf (minted w.store w.unix o)).name = (metaOf o).name := by
        rw [metaOf_minted, stampNew_name]
      have hl := lookup_write w.store k (minted w.store w.unix o)
        (stampNew w.store.uids w.unix (metaOf o)).2 (by rw [hm]; exact hv) n
      by_cases hnn : (metaOf o).name = n
      · refine Or.inr (Or.inl ⟨o, rfl, hnn ▸ hn, hr, hnn, ?_⟩)
        rw [if_pos (hm.trans hnn)] at hl
        exact hl
      · rw [if_neg (fun he => hnn (hm.symm.trans he))] at hl
        exact Or.inl hl
    · exact Or.inl (lookup_write_kind w.store k' hk _ _ _ n)
  | edit k' cur o r hv hl hr =>
    by_cases hk : k = k'
    · subst hk
      have hlw := lookup_write w.store k o w.store.uids hv n
      by_cases hnn : (metaOf o).name = n
      · rw [if_pos hnn] at hlw
        exact Or.inr (Or.inr (Or.inl ⟨cur, r, o, rfl, hnn ▸ hl, hr, hnn, hlw⟩))
      · rw [if_neg hnn] at hlw
        exact Or.inl hlw
    · exact Or.inl (lookup_write_kind w.store k' hk _ _ _ n)
  | remove op k' m cur r hop hl hr =>
    by_cases hk : k = k'
    · subst hk
      have hlr := lookup_remove w.store k m n
      by_cases hnn : m = n
      · subst hnn
        rw [if_pos rfl] at hlr
        exact Or.inr (Or.inr (Or.inr ⟨cur, r, hop, hl, hr, hlr⟩))
      · rw [if_neg hnn] at hlr
        exact Or.inl hlr
    · exact Or.inl (lookup_remove_kind w.store k' hk m n)

theorem change_holds (hc : Change R h w op s') {o' : k.Obj} (ho : Holds s' k o') : Holds w.store k o' ∨
    (∃ o, op = .put k o revCreate ∧ w.store.lookup k (metaOf o).name = none ∧ R.create k h w o ∧
      o' = stamp (minted w.store w.unix o) (w.store.rev + 1)) ∨
    (∃ cur o, op = .put k o (metaOf cur).resourceVersion ∧ Holds w.store k cur ∧ R.edit k h w cur o ∧
      (metaOf o).name = (metaOf cur).name ∧ o' = stamp o (w.store.rev + 1)) := by
  unfold Holds at ho
  rcases change_record hc k (metaOf o').name with
    hs | ⟨o, hop, hnone, hr, hn, hp⟩ | ⟨cur, r, o, hop, hl, hr, hn, hp⟩ | ⟨cur, r, -, -, -, hp⟩
  · exact Or.inl (hs.symm.trans ho)
  · have he := (Prod.mk.inj (Option.mem_unique ho hp)).1
    exact Or.inr (Or.inl ⟨o, hop, hn ▸ hnone, hr, he⟩)
  · have he := (Prod.mk.inj (Option.mem_unique ho hp)).1
    have hcur := lookup_some hl
    exact Or.inr (Or.inr ⟨cur, o, hcur.2.1 ▸ hop, holds_of_lookup hl, hr, hn.trans hcur.1.symm, he⟩)
  · exact absurd (ho.symm.trans hp) (by simp)

theorem change_uids (hc : Change R h w op s') : w.store.uids ≤ s'.uids := by
  cases hc with
  | same => exact le_refl _
  | create k o hv hn hr => exact stampNew_uids_le _ _ _
  | edit k cur o r hv hl hr => exact le_refl _
  | remove op k n cur r hop hl hr => exact le_refl _

theorem change_minted {o : k.Obj} (hc : Change R h w (.put k o revCreate) s') (hu : (metaOf o).uid = 0)
    (hne : s'.lookup k (metaOf o).name ≠ w.store.lookup k (metaOf o).name) :
    (metaOf (minted w.store w.unix o)).uid = w.store.uids + 1 ∧ s'.uids = w.store.uids + 1 := by
  have hst : stampNew w.store.uids w.unix (metaOf o) =
      ({ metaOf o with
          createdUnix := if (metaOf o).createdUnix = 0 then w.unix else (metaOf o).createdUnix
          uid := w.store.uids + 1 }, w.store.uids + 1) := by
    unfold stampNew
    dsimp only
    rw [if_pos hu]
  refine ⟨by rw [metaOf_minted, hst], ?_⟩
  cases hc with
  | same => exact absurd rfl hne
  | create _ _ hv hn hr => exact congrArg Prod.snd hst
  | edit _ cur _ _ hv hl hr => exact absurd (lookup_some hl).2.2.2.1 (by unfold revCreate; omega)
  | remove _ k' n cur r hop hl hr => rcases hop with hop | hop <;> cases hop

end Records

end Klite
