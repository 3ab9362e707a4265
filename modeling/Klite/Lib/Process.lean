import Klite.Lib.Program
import Klite.Lib.Runs

/-!
# One process on a machine

A process is a program under way: the world it runs in, what is left of the program and the
calls it has made. Between two calls the world may move. `Guards` is its weakest
precondition: the moves stay within `R`, the answered calls satisfy `A`, and then every
call made satisfies `S` and the program returns with `Q`.
-/

namespace Klite.Lib

section Process
variable {Op : Type} {Res : Op → Type} {α β : Type} (M : Machine Op Res)

structure Proc (α : Type) where
  world : M.World
  prog : Prog Op Res α
  hist : Hist M

inductive Tick where
  | step (c : M.Choice)
  | move (m : M.Move)

variable {M}

def Prog.start (p : Prog Op Res α) (w : M.World) : Proc M α := ⟨w, p, []⟩

def Proc.next (s : Proc M α) : Tick M → Proc M α
  | .step c =>
    match s.prog with
    | .call op k => ⟨(M.exec c op s.world).2, k (M.exec c op s.world).1, M.event c op s.world :: s.hist⟩
    | _ => s
  | .move m => { s with world := M.move m s.world }

/-- A step is answered as assumed, a move is one that the process reckons with. -/
def Proc.Admits (R : M.World → M.World → Prop) (A : Event Op Res M.World → Prop) (s : Proc M α) : Tick M → Prop
  | .step c => ∀ op k, s.prog = .call op k → A (M.event c op s.world)
  | .move m => R s.world (M.move m s.world)

variable (R : M.World → M.World → Prop) (A : Event Op Res M.World → Prop)
  (S : Hist M → M.World → Op → Prop)

def Guards (Q : Hist M → M.World → α → Prop) : Prog Op Res α → Hist M → M.World → Prop
  | .ret a, h, w => Q h w a
  | .crash, _, _ => False
  | .call op k, h, w => ∀ w', R w w' → S h w' op ∧
      ∀ c, A (M.event c op w') → Guards Q (k (M.exec c op w').1) (M.event c op w' :: h) (M.exec c op w').2

variable {R A S} {Q Q' : Hist M → M.World → α → Prop}

theorem guards_mono (hq : ∀ h w a, Q h w a → Q' h w a) (p : Prog Op Res α) (h : Hist M) (w : M.World)
    (hp : Guards R A S Q p h w) : Guards R A S Q' p h w := by
  induction p generalizing h w with
  | ret a => exact hq h w a hp
  | crash => exact hp
  | call op k ih =>
    intro w' hw
    have hc := hp w' hw
    exact ⟨hc.1, fun c hA => ih _ _ _ (hc.2 c hA)⟩

variable {h : Hist M} {w : M.World}

theorem guards_bind {P : Hist M → M.World → β → Prop} {p : Prog Op Res β} {f : β → Prog Op Res α}
    (hp : Guards R A S P p h w) (hf : ∀ h' w' b, P h' w' b → Guards R A S Q (f b) h' w') :
    Guards R A S Q (p >>= f) h w := by
  induction p generalizing h w with
  | ret b => exact hf h w b hp
  | crash => exact hp.elim
  | call op k ih =>
    intro w' hw
    have hc := hp w' hw
    exact ⟨hc.1, fun c hA => ih _ (hc.2 c hA)⟩

theorem guards_call {op : Op} {k : Res op → Prog Op Res α}
    (hc : ∀ w', R w w' → S h w' op ∧ ∀ c, A (M.event c op w') →
      Guards R A S Q (k (M.exec c op w').1) (M.event c op w' :: h) (M.exec c op w').2) :
    Guards R A S Q (Prog.perform op >>= k) h w := hc

theorem guards_answer {op : Op} {k : Res op → Prog Op Res α} (hs : ∀ w', R w w' → S h w' op)
    (hc : ∀ w' c r w'', R w w' → M.exec c op w' = (r, w'') → A ⟨op, r, w', w''⟩ → Guards R A S Q (k r) (⟨op, r, w', w''⟩ :: h) w'') :
    Guards R A S Q (Prog.perform op >>= k) h w :=
  guards_call fun w' hw => ⟨hs w' hw, fun c hA => hc w' c _ _ hw rfl hA⟩

theorem guards_foldlM {σ : Type} (f : σ → β → Prog Op Res σ) (I : List β → Hist M → M.World → σ → Prop)
    (hf : ∀ b bs h w x, I (b :: bs) h w x → Guards R A S (I bs) (f x b) h w)
    (bs : List β) (x : σ) (h : Hist M) (w : M.World) (hi : I bs h w x) : Guards R A S (I []) (bs.foldlM f x) h w := by
  induction bs generalizing x h w with
  | nil => exact hi
  | cons b bs ih =>
    rw [List.foldlM_cons]
    exact guards_bind (hf b bs h w x hi) fun h' w' y hy => ih y h' w' hy

theorem guards_suffix (p : Prog Op Res α) (h : Hist M) (w : M.World) (hp : Guards R A S Q p h w) :
    Guards R A S (fun h' w' a => h <:+ h' ∧ Q h' w' a) p h w := by
  induction p generalizing h w with
  | ret a => exact ⟨List.suffix_refl h, hp⟩
  | crash => exact hp
  | call op k ih =>
    intro w' hw
    have hc := hp w' hw
    refine ⟨hc.1, fun c hA => guards_mono ?_ _ _ _ (ih _ _ _ (hc.2 c hA))⟩
    rintro h' w'' a ⟨hsuf, hq⟩
    exact ⟨(List.suffix_cons _ _).trans hsuf, hq⟩

variable (M) in
/-- Nothing is assumed of the moves between the calls. -/
abbrev AnyMove : M.World → M.World → Prop := fun _ _ => True

variable (M) in
abbrev AnyEvent : Event Op Res M.World → Prop := fun _ => True

variable (M) in
abbrev AnyCall : Hist M → M.World → Op → Prop := fun _ _ _ => True

/-! ## Runs of the process -/

theorem hist_next (s : Proc M α) (l : Tick M) : s.hist <:+ (s.next l).hist := by
  obtain ⟨world, p, hist⟩ := s
  cases l with
  | move m => exact List.suffix_refl _
  | step c =>
    cases p with
    | ret a => exact List.suffix_refl _
    | crash => exact List.suffix_refl _
    | call op k => exact List.suffix_cons _ _

theorem hist_runs (s : Proc M α) (ls : List (Tick M)) : s.hist <:+ (runs Proc.next s ls).hist := by
  induction ls generalizing s with
  | nil => exact List.suffix_refl _
  | cons l ls ih => exact (hist_next s l).trans (ih (s.next l))

variable {ls : List (Tick M)}

theorem admits_of_hist {s : Proc M α} (hR : ∀ m w, R w (M.move m w)) (hA : ∀ e ∈ (runs Proc.next s ls).hist, A e) :
    Each Proc.next (Proc.Admits R A) s ls := by
  induction ls generalizing s with
  | nil => trivial
  | cons l ls ih =>
    refine ⟨?_, ih hA⟩
    cases l with
    | move m => exact hR m s.world
    | step c =>
      intro op k hp
      refine hA _ ((hist_runs (s.next (.step c)) ls).subset ?_)
      simp only [Proc.next, hp]
      exact List.mem_cons_self

variable {p : Prog Op Res α}

section Runs
variable (hrefl : ∀ w, R w w) (htrans : ∀ a b c, R a b → R b c → R a c)
include hrefl htrans

theorem guarded_next (s : Proc M α) (l : Tick M) (h : ∃ w, R w s.world ∧ Guards R A S Q s.prog s.hist w)
    (hl : s.Admits R A l) : ∃ w, R w (s.next l).world ∧ Guards R A S Q (s.next l).prog (s.next l).hist w := by
  obtain ⟨w, hw, hg⟩ := h
  obtain ⟨world, p, hist⟩ := s
  cases l with
  | move m => exact ⟨w, htrans _ _ _ hw hl, hg⟩
  | step c =>
    cases p with
    | ret a => exact ⟨w, hw, hg⟩
    | crash => exact ⟨w, hw, hg⟩
    | call op k => exact ⟨_, hrefl _, (hg world hw).2 c (hl op k rfl)⟩

/-- The rule for a run: what holds of the process at every point of it. -/
theorem guards_run (hp : Guards R A S Q p [] w) (hl : Each Proc.next (Proc.Admits R A) (p.start w) ls) :
    let s := runs Proc.next (p.start w) ls
    (∀ op k, s.prog = .call op k → S s.hist s.world op) ∧
      ∀ a, s.prog = .ret a → ∃ w', R w' s.world ∧ Q s.hist w' a := by
  intro s
  have hinv : ∃ w', R w' s.world ∧ Guards R A S Q s.prog s.hist w' :=
    runs_invariant (guarded_next hrefl htrans) ⟨w, hrefl w, hp⟩ hl
  obtain ⟨w', hw, hg⟩ := hinv
  constructor
  · intro op k hk
    rw [hk] at hg
    exact (hg s.world hw).1
  · intro a ha
    rw [ha] at hg
    exact ⟨w', hw, hg⟩

/-- The invariant rule for a run: `S` says what each call of the program follows, `C` what is assumed
of the run's steps, and `J` is kept by the moves and by the calls that satisfy `S`. -/
theorem proc_invariant {C : Proc M α → Tick M → Prop} {J : Hist M → M.World → Prop} (hp : Guards R A S Q p [] w)
    (hC : ∀ s l, C s l → s.Admits R A l) (h0 : J [] w)
    (hmove : ∀ s m, C s (.move m) → J s.hist s.world → J s.hist (M.move m s.world))
    (hcall : ∀ s op k c, s.prog = .call op k → C s (.step c) → S s.hist s.world op → J s.hist s.world →
      J (M.event c op s.world :: s.hist) (M.exec c op s.world).2)
    (hl : Each Proc.next C (p.start w) ls) :
    J (runs Proc.next (p.start w) ls).hist (runs Proc.next (p.start w) ls).world := by
  let Inv : Proc M α → Prop := fun s =>
    (∃ w', R w' s.world ∧ Guards R A S Q s.prog s.hist w') ∧ J s.hist s.world
  have hstep : ∀ s l, Inv s → C s l → Inv (s.next l) := by
    rintro s l ⟨hg, hj⟩ hl
    refine ⟨guarded_next hrefl htrans _ l hg (hC s l hl), ?_⟩
    obtain ⟨world, q, hist⟩ := s
    cases l with
    | move m => exact hmove _ m hl hj
    | step c =>
      cases q with
      | ret a => exact hj
      | crash => exact hj
      | call op k =>
        obtain ⟨w', hw, hg⟩ := hg
        exact hcall _ op k c rfl hl (hg world hw).1 hj
  have h0' : Inv (p.start w) := ⟨⟨w, hrefl w, hp⟩, h0⟩
  exact (runs_invariant hstep h0' hl).2

/-- What follows from `S` and the invariant holds of every call that has been made. -/
theorem proc_calls {C : Proc M α → Tick M → Prop} {J : Hist M → M.World → Prop} {P : Hist M → M.World → Op → Prop}
    (hp : Guards R A S Q p [] w) (hC : ∀ s l, C s l → s.Admits R A l) (h0 : J [] w)
    (hmove : ∀ s m, C s (.move m) → J s.hist s.world → J s.hist (M.move m s.world))
    (hcall : ∀ s op k c, s.prog = .call op k → C s (.step c) → S s.hist s.world op → J s.hist s.world →
      J (M.event c op s.world :: s.hist) (M.exec c op s.world).2)
    (hP : ∀ h w op, S h w op → J h w → P h w op) (hl : Each Proc.next C (p.start w) ls) {e : Event Op Res M.World}
    (he : e :: h <:+ (runs Proc.next (p.start w) ls).hist) : P h e.pre e.op := by
  have hrun := proc_invariant hrefl htrans hp hC
    (J := fun h w => J h w ∧ ∀ e h', e :: h' <:+ h → P h' e.pre e.op)
    ⟨h0, fun e h' he => by cases List.suffix_nil.mp he⟩ (fun s m hc hj => ⟨hmove s m hc hj.1, hj.2⟩) ?_ hl
  · exact hrun.2 e h he
  · intro s op k c hk hc hS hj
    refine ⟨hcall s op k c hk hc hS hj.1, ?_⟩
    intro e h' he
    rcases List.suffix_cons_iff.mp he with heq | he
    · cases heq
      exact hP _ _ _ hS hj.1
    · exact hj.2 e h' he

end Runs

/-- A program that follows `S` whatever the world has done in between makes only calls that `S` admits,
in every run of it. -/
theorem follows_calls {Q : Hist M → α → Prop} (hp : Follows M S Q p []) (w : M.World) (ls : List (Tick M))
    {e : Event Op Res M.World} (he : e :: h <:+ (runs Proc.next (p.start w) ls).hist) : S h e.pre e.op := by
  let Inv : Proc M α → Prop := fun s => (∀ e ∈ s.hist, M.le e.post s.world) ∧ Follows M S Q s.prog s.hist ∧
    ∀ e h, e :: h <:+ s.hist → S h e.pre e.op
  have hstep : ∀ s l, Inv s → Inv (s.next l) := by
    rintro ⟨world, q, hist⟩ l ⟨hle, hf, hc⟩
    cases l with
    | move m => exact ⟨fun e he => M.le_trans (hle e he) (M.move_le m world), hf, hc⟩
    | step c =>
      cases q with
      | ret a => exact ⟨hle, hf, hc⟩
      | crash => exact ⟨hle, hf, hc⟩
      | call op k =>
        obtain ⟨hs, hk⟩ := hf world hle
        refine ⟨?_, hk c, ?_⟩
        · intro e he
          rcases List.mem_cons.mp he with rfl | he
          · exact M.le_refl _
          · exact M.le_trans (hle e he) (M.exec_le c op world)
        · intro e h he
          rcases List.suffix_cons_iff.mp he with heq | he
          · cases heq
            exact hs
          · exact hc e h he
  have h0 : Inv (p.start w) :=
    ⟨fun e he => absurd he List.not_mem_nil, hp, fun e h he => by cases List.suffix_nil.mp he⟩
  have hrun : Inv (runs Proc.next (p.start w) ls) := List.foldlRecOn ls Proc.next h0 fun s hs l _ => hstep s l hs
  exact hrun.2.2 e h he

/-! ## Running alone -/

variable (M) in
/-- One choice a call: what the program returns, its history and the world it leaves. -/
def Prog.trace : Prog Op Res α → (ℕ → M.Choice) → Hist M → M.World → Option α × Hist M × M.World
  | .ret a, _, h, w => (some a, h, w)
  | .crash, _, h, w => (none, h, w)
  | .call op k, cs, h, w =>
    (k (M.exec (cs 0) op w).1).trace (fun i => cs (i + 1)) (M.event (cs 0) op w :: h) (M.exec (cs 0) op w).2

theorem trace_suffix (p : Prog Op Res α) (cs : ℕ → M.Choice) (h : Hist M) (w : M.World) :
    h <:+ (p.trace M cs h w).2.1 := by
  induction p generalizing cs h w with
  | ret a => exact List.suffix_refl h
  | crash => exact List.suffix_refl h
  | call op k ih => exact (List.suffix_cons _ _).trans (ih _ _ _ _)

/- Where every call has a choice that is answered as assumed, so have all calls of a program. -/
theorem trace_exists [Nonempty M.Choice] (hc : ∀ op w, ∃ c, A (M.event c op w)) (p : Prog Op Res α) (h : Hist M)
    (w : M.World) (hh : ∀ e ∈ h, A e) : ∃ cs, ∀ e ∈ (p.trace M cs h w).2.1, A e := by
  induction p generalizing h w with
  | ret a => exact ⟨fun _ => Classical.choice inferInstance, hh⟩
  | crash => exact ⟨fun _ => Classical.choice inferInstance, hh⟩
  | call op k ih =>
    obtain ⟨c, hA⟩ := hc op w
    have hcons : ∀ e ∈ M.event c op w :: h, A e := by
      intro e he
      rcases List.mem_cons.mp he with rfl | he
      · exact hA
      · exact hh e he
    obtain ⟨cs, hcs⟩ := ih (M.exec c op w).1 (M.event c op w :: h) (M.exec c op w).2 hcons
    let cs' : ℕ → M.Choice
      | 0 => c
      | i + 1 => cs i
    exact ⟨cs', hcs⟩

theorem guards_trace (p : Prog Op Res α) (cs : ℕ → M.Choice) (h : Hist M) (w : M.World)
    (hp : Guards Eq A S Q p h w) (hA : ∀ e ∈ (p.trace M cs h w).2.1, A e) :
    (∃ a, (p.trace M cs h w).1 = some a ∧ Q (p.trace M cs h w).2.1 (p.trace M cs h w).2.2 a) ∧
    ∀ e ∈ (p.trace M cs h w).2.1, e ∈ h ∨ ∃ h', S h' e.pre e.op := by
  induction p generalizing cs h w with
  | ret a => exact ⟨⟨a, rfl, hp⟩, fun e he => Or.inl he⟩
  | crash => exact hp.elim
  | call op k ih =>
    have hsuf := trace_suffix (k (M.exec (cs 0) op w).1) (fun i => cs (i + 1))
      (M.event (cs 0) op w :: h) (M.exec (cs 0) op w).2
    have hc := hp w rfl
    obtain ⟨hret, hcalls⟩ := ih _ _ _ _ (hc.2 (cs 0) (hA _ (hsuf.subset List.mem_cons_self))) hA
    refine ⟨hret, ?_⟩
    intro e he
    rcases hcalls e he with he | he
    · rcases List.mem_cons.mp he with rfl | he
      · exact Or.inr ⟨h, hc.1⟩
      · exact Or.inl he
    · exact Or.inr he

end Process

end Klite.Lib
