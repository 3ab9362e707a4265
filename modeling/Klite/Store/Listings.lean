import Klite.Store.Reason

/-!
# The last listing of a caller

A controller pass lists first and acts on what it listed. `lastListed` reads the
latest successful listing of a kind off a caller's history.
-/

namespace Klite
open Lib

def castList {k k' : Kind} (hk : k' = k) (l : List k'.Obj) : List k.Obj := hk ▸ l

def listedBy (k : Kind) : Event Op Res World → Option (List k.Obj)
  | ⟨.list k', .ok (l, _), _, _⟩ => if hk : k' = k then some (castList hk l) else none
  | _ => none

def lastListed (k : Kind) (h : Log) : Option (List k.Obj) := h.findSome? (listedBy k)

variable {k : Kind} {e : Event Op Res World} {h : Log}

theorem lastListed_cons (he : listedBy k e = none) : lastListed k (e :: h) = lastListed k h := by
  unfold lastListed
  rw [List.findSome?_cons, he]

theorem listedBy_of_not_list (hl : ∀ k', e.op ≠ .list k') : listedBy k e = none := by
  obtain ⟨op, res, pre, post⟩ := e
  cases op with
  | list k' => exact absurd rfl (hl k')
  | _ => rfl

theorem listedBy_other {k k' : Kind} (hk : k' ≠ k) (c : Choice) (w : World) :
    listedBy k (klited.event c (.list k') w) = none := by
  unfold Machine.event
  change listedBy k ⟨.list k', (exec c (.list k') w).1, _, _⟩ = none
  cases (exec c (.list k') w).1 with
  | error e => rfl
  | ok x => simp [listedBy, hk]

variable {c : Choice} {w : World}

theorem listedBy_self (hr : (exec c (.list k) w).1 = .ok (w.store.listing k, w.store.rev)) :
    listedBy k (klited.event c (.list k) w) = some (w.store.listing k) := by
  unfold Machine.event
  change listedBy k ⟨.list k, (exec c (.list k) w).1, _, _⟩ = _
  rw [hr]
  simp [listedBy, castList]

theorem listedBy_failed {k k' : Kind} {e : StoreErr} (hr : (exec c (.list k') w).1 = .error e) :
    listedBy k (klited.event c (.list k') w) = none := by
  unfold Machine.event
  change listedBy k ⟨.list k', (exec c (.list k') w).1, _, _⟩ = _
  rw [hr]
  rfl

structure Listed (h : Log) (k : Kind) (l : List k.Obj) : Prop where
  last : lastListed k h = some l
  seen : ∀ o ∈ l, Seen h k o

def SameLists (h h' : Log) : Prop := h <:+ h' ∧ ∀ k, lastListed k h' = lastListed k h

theorem sameLists_refl (h : Log) : SameLists h h := ⟨List.suffix_refl h, fun _ => rfl⟩

theorem sameLists_trans {h h' h'' : Log} (a : SameLists h h') (b : SameLists h' h'') :
    SameLists h h'' := ⟨a.1.trans b.1, fun k => (b.2 k).trans (a.2 k)⟩

theorem sameLists_cons (hl : ∀ k, e.op ≠ .list k) : SameLists h (e :: h) :=
  ⟨List.suffix_cons e h, fun _ => lastListed_cons (listedBy_of_not_list hl)⟩

variable {op : Op}

theorem sameLists_event (hl : ∀ k, op ≠ .list k) :
    SameLists h (klited.event c op w :: h) := sameLists_cons hl

theorem listed_same {h h' : Log} {l : List k.Obj} (hl : Listed h k l) (hs : SameLists h h') : Listed h' k l :=
  ⟨(hs.2 k).trans hl.last, fun o ho => seen_mono hs.1 (hl.seen o ho)⟩

theorem listed_event (hr : (exec c (.list k) w).1 = .ok (w.store.listing k, w.store.rev)) :
    Listed (klited.event c (.list k) w :: h) k (w.store.listing k) := by
  refine ⟨?_, ?_⟩
  · unfold lastListed
    rw [List.findSome?_cons, listedBy_self hr]
  · intro o ho
    exact ⟨_, List.mem_cons_self, mem_listing.mp ho⟩

theorem listed_other {l : List k.Obj} (hl : Listed h k l) (k' : Kind) (hk : k' ≠ k) (c : Choice) (w : World) :
    Listed (klited.event c (.list k') w :: h) k l :=
  ⟨(lastListed_cons (listedBy_other hk c w)).trans hl.last,
    fun o ho => seen_mono (List.suffix_cons _ _) (hl.seen o ho)⟩

theorem listedBy_listing {l : List k.Obj} (h : listedBy k (klited.event c op w) = some l) : l = w.store.listing k := by
  cases op with
  | list k' =>
    by_cases hk : k' = k
    · subst hk
      cases hres : (exec c (.list k') w).1 with
      | error err =>
        rw [listedBy_failed hres] at h
        cases h
      | ok x =>
        have hx : x = (w.store.listing k', w.store.rev) := by
          simp only [exec] at hres
          split at hres
          · exact (Except.ok.inj hres).symm
          · cases hres
        rw [listedBy_self (hx ▸ hres)] at h
        exact (Option.some.inj h).symm
    · rw [listedBy_other hk] at h
      cases h
  | _ =>
    rw [listedBy_of_not_list fun k' hk => by cases hk] at h
    cases h

theorem listedBy_op {l : List k.Obj} (h : listedBy k (klited.event c op w) = some l) : op = .list k := by
  cases op with
  | list k' =>
    by_cases hk : k' = k
    · rw [hk]
    · rw [listedBy_other hk] at h
      cases h
  | _ =>
    rw [listedBy_of_not_list fun k' hk => by cases hk] at h
    cases h

theorem lastListed_event {l l' : List k.Obj} (hl : listedBy k (klited.event c op w) = some l)
    (hh : lastListed k (klited.event c op w :: h) = some l') : l' = w.store.listing k := by
  unfold lastListed at hh
  rw [List.findSome?_cons, hl] at hh
  exact (Option.some.inj hh).symm.trans (listedBy_listing hl)

theorem listedBy_world {l : List k.Obj} (h : listedBy k (klited.event c op w) = some l) : (exec c op w).2 = w := by
  rw [listedBy_op h]
  rfl

theorem lastListed_listing (hr : ∀ e ∈ h, ∃ c, e = klited.event c e.op e.pre) {l : List k.Obj}
    (hl : lastListed k h = some l) : ∃ e ∈ h, l = e.post.store.listing k := by
  obtain ⟨e, he, hle⟩ := List.exists_of_findSome?_eq_some hl
  obtain ⟨c, hev⟩ := hr e he
  refine ⟨e, he, ?_⟩
  rw [hev] at hle ⊢
  show l = ((exec c e.op e.pre).2).store.listing k
  rw [listedBy_world hle]
  exact listedBy_listing hle

section Loops
variable {S : Log → World → Op → Prop} {β σ : Type}

theorem obeys_rounds {L : Log → Log → Prop} (hrefl : ∀ h, L h h) (htrans : ∀ {a b c}, L a b → L b c → L a c)
    {f : σ → β → Code σ} (bs : List β) (x : σ)
    (hf : ∀ b ∈ bs, ∀ x h', L h h' → Follows klited S (fun h'' _ => L h' h'') (f x b) h') :
    Follows klited S (fun h' _ => L h h') (bs.foldlM f x) h := by
  refine follows_foldlM f (fun bs' h' _ => L h h' ∧ ∀ b ∈ bs', b ∈ bs) ?_ bs x h
    ⟨hrefl h, fun b hb => hb⟩ |> follows_post (fun _ _ hq => hq.1)
  intro b bs' h' x hi
  refine follows_post ?_ (hf b (hi.2 b List.mem_cons_self) x h' hi.1)
  intro h'' y hy
  exact ⟨htrans hi.1 hy, fun b' hb' => hi.2 b' (List.mem_cons_of_mem _ hb')⟩

theorem obeys_loop {f : σ → β → Code σ} (bs : List β) (x : σ)
    (hf : ∀ b ∈ bs, ∀ x h', SameLists h h' → Follows klited S (fun h'' _ => SameLists h' h'') (f x b) h') :
    Follows klited S (fun h' _ => SameLists h h') (bs.foldlM f x) h :=
  obeys_rounds sameLists_refl sameLists_trans bs x hf

end Loops

end Klite
