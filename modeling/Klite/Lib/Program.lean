import Mathlib.Data.List.Basic

/-!
# Programs that call an outside service

A program is a tree: it has returned, it has crashed, or it makes one call and
goes on with the answer. The tree is the whole sequential code, so a caller may
be stopped between any two calls. `Follows` is the sequential specification:
at every call the program makes, whatever it was answered before, the call is
one that the specification admits for the caller's own history.
-/

namespace Klite.Lib

inductive Prog (Op : Type) (Res : Op → Type) (α : Type) where
  | ret (a : α)
  | crash
  | call (op : Op) (k : Res op → Prog Op Res α)

namespace Prog
variable {Op : Type} {Res : Op → Type} {α β : Type}

def bind : Prog Op Res α → (α → Prog Op Res β) → Prog Op Res β
  | .ret a, f => f a
  | .crash, _ => .crash
  | .call op k, f => .call op fun r => (k r).bind f

instance : Monad (Prog Op Res) where
  pure := .ret
  bind := .bind

/-- One call, answering what the service answers. -/
def perform (op : Op) : Prog Op Res (Res op) := .call op .ret

end Prog

/- The service. `le` is what the world can only do more of: it is what a caller
may still rely on after other callers have run. -/
structure Machine (Op : Type) (Res : Op → Type) where
  World : Type
  Choice : Type
  Move : Type
  exec : Choice → (op : Op) → World → Res op × World
  move : Move → World → World
  le : World → World → Prop := fun _ _ => True
  le_refl : ∀ w, le w w := by intros; trivial
  le_trans : ∀ {a b c}, le a b → le b c → le a c := by intros; trivial
  exec_le : ∀ c op w, le w (exec c op w).2 := by intros; trivial
  move_le : ∀ m w, le w (move m w) := by intros; trivial

/-- One answered call, with the world around it. -/
structure Event (Op : Type) (Res : Op → Type) (World : Type) where
  op : Op
  res : Res op
  pre : World
  post : World

/-- A program that returns, and makes only calls that `P` admits. -/
def Only {Op α : Type} {Res : Op → Type} (P : Op → Prop) : Prog Op Res α → Prop
  | .ret _ => True
  | .crash => False
  | .call op k => P op ∧ ∀ r, Only P (k r)

section Follows
variable {Op : Type} {Res : Op → Type} {α β : Type} (M : Machine Op Res)

theorem only_bind {P : Op → Prop} {p : Prog Op Res β} {f : β → Prog Op Res α} (hp : Only P p) (hf : ∀ b, Only P (f b)) :
    Only P (p >>= f) := by
  induction p with
  | ret b => exact hf b
  | crash => exact hp.elim
  | call op k ih => exact ⟨hp.1, fun r => ih r (hp.2 r)⟩

theorem only_call {P : Op → Prop} {op : Op} (h : P op) : Only P (Prog.perform op : Prog Op Res (Res op)) :=
  ⟨h, fun _ => trivial⟩

abbrev Hist := List (Event Op Res M.World)

/-- The event of one call made in a world. -/
def Machine.event (c : M.Choice) (op : Op) (w : M.World) : Event Op Res M.World :=
  ⟨op, (M.exec c op w).1, w, (M.exec c op w).2⟩

/- Histories are newest first. `S h w op` admits the call `op` made in the world
`w` by a caller with the history `h`; `Q` is what holds on return. -/
def Follows (S : Hist M → M.World → Op → Prop) (Q : Hist M → α → Prop) :
    Prog Op Res α → Hist M → Prop
  | .ret a, h => Q h a
  | .crash, _ => True
  | .call op k, h => ∀ w, (∀ e ∈ h, M.le e.post w) → S h w op ∧
      ∀ c, Follows S Q (k (M.exec c op w).1) (M.event c op w :: h)

variable {M} {S S' : Hist M → M.World → Op → Prop} {Q : Hist M → α → Prop}

theorem follows_mono {Q' : Hist M → α → Prop} (p : Prog Op Res α) (h : Hist M)
    (hs : ∀ h w op, S h w op → S' h w op) (hq : ∀ h a, Q h a → Q' h a)
    (hp : Follows M S Q p h) : Follows M S' Q' p h := by
  induction p generalizing h with
  | ret a => exact hq h a hp
  | crash => trivial
  | call op k ih =>
    intro w hw
    have hc := hp w hw
    exact ⟨hs h w op hc.1, fun c => ih _ _ (hc.2 c)⟩

theorem follows_post {Q' : Hist M → α → Prop} {p : Prog Op Res α} {h : Hist M}
    (hq : ∀ h a, Q h a → Q' h a) (hp : Follows M S Q p h) : Follows M S Q' p h :=
  follows_mono p h (fun _ _ _ hs => hs) hq hp

theorem follows_grows (p : Prog Op Res α) (h : Hist M) (hp : Follows M S Q p h) :
    Follows M S (fun h' a => h <:+ h' ∧ Q h' a) p h := by
  have key : ∀ (p : Prog Op Res α) (h₀ h : Hist M), h₀ <:+ h → Follows M S Q p h →
      Follows M S (fun h' a => h₀ <:+ h' ∧ Q h' a) p h := by
    intro p
    induction p with
    | ret a => exact fun h₀ h hh hp => ⟨hh, hp⟩
    | crash => exact fun _ _ _ _ => trivial
    | call op k ih =>
      intro h₀ h hh hp w hw
      have hc := hp w hw
      exact ⟨hc.1, fun c => ih _ h₀ _ (hh.trans (List.suffix_cons _ _)) (hc.2 c)⟩
  exact key p h h (List.suffix_refl h) hp

theorem follows_bind {P : Hist M → β → Prop} {p : Prog Op Res β} {f : β → Prog Op Res α}
    {h : Hist M} (hp : Follows M S P p h) (hf : ∀ h' b, h <:+ h' → P h' b → Follows M S Q (f b) h') :
    Follows M S Q (p >>= f) h := by
  have key : ∀ (p : Prog Op Res β) (h : Hist M),
      Follows M S (fun h' b => Follows M S Q (f b) h') p h → Follows M S Q (p >>= f) h := by
    intro p
    induction p with
    | ret b => exact fun h hp => hp
    | crash => exact fun _ _ => trivial
    | call op k ih =>
      intro h hp w hw
      have hc := hp w hw
      exact ⟨hc.1, fun c => ih _ _ (hc.2 c)⟩
  refine key p h ?_
  exact follows_post (fun h' b hb => hf h' b hb.1 hb.2) (follows_grows p h hp)

theorem follows_call {op : Op} {k : Res op → Prog Op Res α} {h : Hist M}
    (hc : ∀ w, (∀ e ∈ h, M.le e.post w) → S h w op ∧
      ∀ c, Follows M S Q (k (M.exec c op w).1) (M.event c op w :: h)) :
    Follows M S Q (Prog.perform op >>= k) h := hc

theorem follows_foldlM {σ : Type} (f : σ → β → Prog Op Res σ) (I : List β → Hist M → σ → Prop)
    (hf : ∀ b bs h x, I (b :: bs) h x → Follows M S (fun h' y => I bs h' y) (f x b) h)
    (bs : List β) (x : σ) (h : Hist M) (hi : I bs h x) : Follows M S (fun h' y => I [] h' y) (bs.foldlM f x) h := by
  induction bs generalizing x h with
  | nil => exact hi
  | cons b bs ih =>
    rw [List.foldlM_cons]
    exact follows_bind (hf b bs h x hi) (fun h' y _ hy => ih y h' hy)

end Follows

/- Running a program alone, one choice a call. -/
def Prog.eval {Op : Type} {Res : Op → Type} {α : Type} (M : Machine Op Res) :
    Prog Op Res α → (ℕ → M.Choice) → M.World → Option α × M.World
  | .ret a, _, w => (some a, w)
  | .crash, _, w => (none, w)
  | .call op k, cs, w =>
      (k (M.exec (cs 0) op w).1).eval M (fun i => cs (i + 1)) (M.exec (cs 0) op w).2

section Solo
variable {Op : Type} {Res : Op → Type} {α β : Type} {M : Machine Op Res}

/- A program that runs alone: under every choice `C` admits it returns, with `Q` of what it
returns and the world it leaves. -/
def Solo (C : M.Choice → Prop) (Q : α → M.World → Prop) : Prog Op Res α → M.World → Prop
  | .ret a, w => Q a w
  | .crash, _ => False
  | .call op k, w => ∀ c, C c → Solo C Q (k (M.exec c op w).1) (M.exec c op w).2

variable {C : M.Choice → Prop} {Q : α → M.World → Prop}

theorem solo_mono {Q' : α → M.World → Prop} (hq : ∀ a w, Q a w → Q' a w) {p : Prog Op Res α}
    {w : M.World} (h : Solo C Q p w) : Solo C Q' p w := by
  induction p generalizing w with
  | ret a => exact hq a w h
  | crash => exact h
  | call op k ih => exact fun c hc => ih _ (h c hc)

theorem solo_bind {P : β → M.World → Prop} {p : Prog Op Res β} {f : β → Prog Op Res α} {w : M.World}
    (hp : Solo C P p w) (hf : ∀ b w', P b w' → Solo C Q (f b) w') : Solo C Q (p >>= f) w := by
  induction p generalizing w with
  | ret b => exact hf b w hp
  | crash => exact hp.elim
  | call op k ih => exact fun c hc => ih _ (hp c hc)

theorem solo_call {op : Op} {k : Res op → Prog Op Res α} {w : M.World}
    (h : ∀ c, C c → ∀ r w', M.exec c op w = (r, w') → Solo C Q (k r) w') :
    Solo C Q (Prog.perform op >>= k) w := fun c hc => h c hc _ _ rfl

theorem solo_foldlM {σ : Type} (f : σ → β → Prog Op Res σ) (I : List β → M.World → Prop)
    (hf : ∀ b bs x w, I (b :: bs) w → Solo C (fun _ w' => I bs w') (f x b) w)
    (bs : List β) (x : σ) (w : M.World) (hi : I bs w) : Solo C (fun _ w' => I [] w') (bs.foldlM f x) w := by
  induction bs generalizing x w with
  | nil => exact hi
  | cons b bs ih =>
    rw [List.foldlM_cons]
    exact solo_bind (hf b bs x w hi) fun y w' hy => ih y w' hy

theorem solo_eval (p : Prog Op Res α) (w : M.World) (cs : ℕ → M.Choice) (hcs : ∀ i, C (cs i))
    (h : Solo C Q p w) : ∃ a, (p.eval M cs w).1 = some a ∧ Q a (p.eval M cs w).2 := by
  induction p generalizing w cs with
  | ret a => exact ⟨a, rfl, h⟩
  | crash => exact h.elim
  | call op k ih => exact ih _ _ (fun i => cs (i + 1)) (fun i => hcs (i + 1)) (h (cs 0) (hcs 0))

end Solo

section Returns
variable {Op : Type} {Res : Op → Type} {α β : Type} (M : Machine Op Res)

/- A program that no answer can crash: it returns, with `Q` of what it returns, however the
world changes between its calls, as long as each call is made in a world `A` admits for it. -/
def Returns (A : Op → M.World → Prop) (Q : α → Prop) : Prog Op Res α → Prop
  | .ret a => Q a
  | .crash => False
  | .call op k => ∀ c w, A op w → Returns A Q (k (M.exec c op w).1)

variable {M} {A : Op → M.World → Prop} {Q : α → Prop}

theorem returns_bind {P : β → Prop} {p : Prog Op Res β} {f : β → Prog Op Res α}
    (hp : Returns M A P p) (hf : ∀ b, P b → Returns M A Q (f b)) : Returns M A Q (p >>= f) := by
  induction p with
  | ret b => exact hf b hp
  | crash => exact hp.elim
  | call op k ih => exact fun c w ha => ih _ (hp c w ha)

theorem returns_call {op : Op} {k : Res op → Prog Op Res α}
    (h : ∀ c w, A op w → Returns M A Q (k (M.exec c op w).1)) :
    Returns M A Q (Prog.perform op >>= k) := h

theorem returns_foldlM {σ : Type} (f : σ → β → Prog Op Res σ) (bs : List β)
    (hf : ∀ b ∈ bs, ∀ x, Returns M A (fun _ => True) (f x b)) (x : σ) :
    Returns M A (fun _ => True) (bs.foldlM f x) := by
  induction bs generalizing x with
  | nil => trivial
  | cons b bs ih =>
    rw [List.foldlM_cons]
    refine returns_bind (hf b List.mem_cons_self x) fun y _ => ?_
    exact ih (fun b' hb' => hf b' (List.mem_cons_of_mem b hb')) y

end Returns

end Klite.Lib
