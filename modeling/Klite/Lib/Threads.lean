import Klite.Lib.Program

/-!
# Interleaved runs

Any number of programs share one service. A label says what happens next: a new
program starts, one program makes its next call, one is abandoned where it
stands, or the outside world moves by itself. A run is a list of labels, and a
label that does not apply changes nothing, so every list of labels is a run.
-/

namespace Klite.Lib

section Threads
variable {Op : Type} {Res : Op → Type} (M : Machine Op Res) (Tag α : Type)

/-- A started program, what it was started as, and its own calls so far. -/
structure Thread where
  tag : Tag
  prog : Prog Op Res α
  hist : Hist M

structure Sys where
  world : M.World
  threads : List (Thread M Tag α)

inductive Label where
  | spawn (g : Tag)
  | step (t : ℕ) (c : M.Choice)
  | abandon (t : ℕ)
  | move (m : M.Move)

end Threads

variable {t : ℕ}

section Run
variable {Op : Type} {Res : Op → Type} {M : Machine Op Res} {Tag α : Type}
variable (body : Tag → Prog Op Res α)

/-- The thread after its next call, when it has one. -/
def Thread.after (th : Thread M Tag α) (c : M.Choice) (w : M.World) : Option (Thread M Tag α × M.World) :=
  match th.prog with
  | .call op k => some (⟨th.tag, k (M.exec c op w).1, M.event c op w :: th.hist⟩, (M.exec c op w).2)
  | _ => none

def Thread.stop (th : Thread M Tag α) : Thread M Tag α :=
  match th.prog with
  | .call _ _ => { th with prog := .crash }
  | _ => th

def Sys.next (s : Sys M Tag α) : Label M Tag → Sys M Tag α
  | .spawn g => { s with threads := s.threads ++ [⟨g, body g, []⟩] }
  | .step t c =>
    match s.threads[t]?.bind (·.after c s.world) with
    | some (th, w) => ⟨w, s.threads.set t th⟩
    | none => s
  | .abandon t => { s with threads := s.threads.modify t Thread.stop }
  | .move m => { s with world := M.move m s.world }

def Sys.run (s : Sys M Tag α) (ls : List (Label M Tag)) : Sys M Tag α :=
  ls.foldl (Sys.next body) s

/-- A condition on the state before each label of a run. -/
def Along (C : Sys M Tag α → Label M Tag → Prop) : Sys M Tag α → List (Label M Tag) → Prop
  | _, [] => True
  | s, l :: ls => C s l ∧ Along C (s.next body l) ls

/-- A condition that can be run along a concrete run. -/
def checkAlong (f : Sys M Tag α → Label M Tag → Bool) : Sys M Tag α → List (Label M Tag) → Bool
  | _, [] => true
  | s, l :: ls => f s l && checkAlong f (s.next body l) ls

/-- The call a thread stands at. -/
def Sys.Calls (s : Sys M Tag α) (t : ℕ) (th : Thread M Tag α) (op : Op) : Prop :=
  s.threads[t]? = some th ∧ ∃ k, th.prog = .call op k

variable {s : Sys M Tag α}
variable {th' : Thread M Tag α}

theorem calls_inj {th : Thread M Tag α} {op op' : Op} (h : s.Calls t th op) (h' : s.Calls t th' op') :
    th = th' ∧ op = op' := by
  obtain ⟨hth, k, hp⟩ := h
  obtain ⟨hth', k', hp'⟩ := h'
  obtain rfl := Option.mem_unique hth hth'
  rw [hp] at hp'
  exact ⟨rfl, (Prog.call.inj hp').1⟩

theorem run_append (s : Sys M Tag α) (ls ls' : List (Label M Tag)) :
    s.run body (ls ++ ls') = (s.run body ls).run body ls' := List.foldl_append

variable {C : Sys M Tag α → Label M Tag → Prop}

theorem along_append (s : Sys M Tag α) (ls ls' : List (Label M Tag)) (h : Along body C s (ls ++ ls')) :
    Along body C (s.run body ls) ls' := by
  induction ls generalizing s with
  | nil => exact h
  | cons l ls ih => exact ih (s.next body l) h.2

theorem along_init (s : Sys M Tag α) (ls ls' : List (Label M Tag)) (h : Along body C s (ls ++ ls')) :
    Along body C s ls := by
  induction ls generalizing s with
  | nil => trivial
  | cons l ls ih => exact ⟨h.1, ih _ h.2⟩

theorem along_and {C C' : Sys M Tag α → Label M Tag → Prop} (s : Sys M Tag α) (ls : List (Label M Tag))
    (h : Along body C s ls) (h' : Along body C' s ls) : Along body (fun s l => C s l ∧ C' s l) s ls := by
  induction ls generalizing s with
  | nil => trivial
  | cons l ls ih => exact ⟨⟨h.1, h'.1⟩, ih _ h.2 h'.2⟩

theorem along_of_check {f : Sys M Tag α → Label M Tag → Bool} (hf : ∀ s l, f s l → C s l) (s : Sys M Tag α)
    (ls : List (Label M Tag)) (h : checkAlong body f s ls) : Along body C s ls := by
  induction ls generalizing s with
  | nil => trivial
  | cons l ls ih =>
    rw [checkAlong, Bool.and_eq_true] at h
    exact ⟨hf s l h.1, ih _ h.2⟩

/-- The induction over a run. -/
theorem run_invariant (Inv : Sys M Tag α → Prop) (C : Sys M Tag α → Label M Tag → Prop)
    (hstep : ∀ s l, Inv s → C s l → Inv (s.next body l))
    (s : Sys M Tag α) (ls : List (Label M Tag)) (h0 : Inv s) (hc : Along body C s ls) : Inv (s.run body ls) := by
  induction ls generalizing s with
  | nil => exact h0
  | cons l ls ih => exact ih (s.next body l) (hstep s l h0 hc.1) hc.2

variable {th : Thread M Tag α}

theorem next_call {c : M.Choice} {op : Op} {k : Res op → Prog Op Res α} (hth : s.threads[t]? = some th)
    (hp : th.prog = .call op k) : s.next body (.step t c) = ⟨(M.exec c op s.world).2,
      s.threads.set t ⟨th.tag, k (M.exec c op s.world).1, M.event c op s.world :: th.hist⟩⟩ := by
  obtain ⟨tag, prog, hist⟩ := th
  obtain rfl : prog = .call op k := hp
  simp [Sys.next, hth, Thread.after]

theorem next_step (s : Sys M Tag α) (t : ℕ) (c : M.Choice) : (∃ th op k, s.threads[t]? = some th ∧ th.prog = .call op k ∧
      s.next body (.step t c) = ⟨(M.exec c op s.world).2,
        s.threads.set t ⟨th.tag, k (M.exec c op s.world).1, M.event c op s.world :: th.hist⟩⟩) ∨
    s.next body (.step t c) = s := by
  cases hth : s.threads[t]? with
  | none => exact Or.inr (by simp [Sys.next, hth])
  | some th =>
    cases hp : th.prog with
    | ret a => exact Or.inr (by simp [Sys.next, hth, Thread.after, hp])
    | crash => exact Or.inr (by simp [Sys.next, hth, Thread.after, hp])
    | call op k => exact Or.inl ⟨th, op, k, rfl, hp, next_call body hth hp⟩

theorem next_world (s : Sys M Tag α) (l : Label M Tag) : (s.next body l).world = s.world ∨
    (∃ m, l = .move m ∧ (s.next body l).world = M.move m s.world) ∨
    ∃ t c th op, l = .step t c ∧ s.Calls t th op ∧ (s.next body l).world = (M.exec c op s.world).2 := by
  cases l with
  | spawn g => exact Or.inl rfl
  | abandon t => exact Or.inl rfl
  | move m => exact Or.inr (Or.inl ⟨m, rfl, rfl⟩)
  | step t c =>
    rcases next_step body s t c with ⟨th, op, k, hth, hp, he⟩ | he
    · exact Or.inr (Or.inr ⟨t, c, th, op, rfl, ⟨hth, k, hp⟩, by rw [he]⟩)
    · exact Or.inl (by rw [he])

theorem next_le (s : Sys M Tag α) (l : Label M Tag) : M.le s.world (s.next body l).world := by
  rcases next_world body s l with he | ⟨m, -, he⟩ | ⟨t, c, th, op, -, -, he⟩
  · exact he ▸ M.le_refl _
  · exact he ▸ M.move_le m _
  · exact he ▸ M.exec_le c op _

theorem run_le (s : Sys M Tag α) (ls : List (Label M Tag)) : M.le s.world (s.run body ls).world := by
  induction ls generalizing s with
  | nil => exact M.le_refl _
  | cons l ls ih => exact M.le_trans (next_le body s l) (ih _)

theorem stop_hist (th : Thread M Tag α) : th.stop.hist = th.hist := by
  unfold Thread.stop
  cases th.prog <;> rfl

theorem stop_tag (th : Thread M Tag α) : th.stop.tag = th.tag := by
  unfold Thread.stop
  cases th.prog <;> rfl

theorem stop_prog (th : Thread M Tag α) : th.stop.prog = th.prog ∨ th.stop.prog = .crash := by
  unfold Thread.stop
  cases hp : th.prog with
  | ret a => exact Or.inl hp
  | crash => exact Or.inl hp
  | call op k => exact Or.inr rfl

theorem mem_abandon (h : th ∈ (s.next body (.abandon t)).threads) :
    th ∈ s.threads ∨ ∃ th' ∈ s.threads, th = th'.stop := by
  obtain ⟨i, hi, he⟩ := List.mem_iff_getElem.mp h
  simp only [Sys.next, List.getElem_modify] at he
  simp only [Sys.next, List.length_modify] at hi
  split at he
  · exact Or.inr ⟨s.threads[i], List.getElem_mem hi, he.symm⟩
  · exact Or.inl (he ▸ List.getElem_mem hi)

variable {u : ℕ}

theorem next_thread {l : Label M Tag} (h : (s.next body l).threads[u]? = some th') :
    (∃ th, s.threads[u]? = some th ∧ th'.tag = th.tag ∧ th'.hist = th.hist ∧ (th'.prog = th.prog ∨ th'.prog = .crash)) ∨
    (∃ g, l = .spawn g ∧ th' = ⟨g, body g, []⟩) ∨
    (∃ c th op k, l = .step u c ∧ s.threads[u]? = some th ∧ th.prog = .call op k ∧
      th' = ⟨th.tag, k (M.exec c op s.world).1, M.event c op s.world :: th.hist⟩) := by
  cases l with
  | spawn g =>
    simp only [Sys.next] at h
    rcases Nat.lt_or_ge u s.threads.length with hu | hu
    · rw [List.getElem?_append_left hu] at h
      exact Or.inl ⟨th', h, rfl, rfl, Or.inl rfl⟩
    · rw [List.getElem?_append_right hu] at h
      have hm := List.mem_of_getElem? h
      exact Or.inr (Or.inl ⟨g, rfl, List.mem_singleton.mp hm⟩)
  | abandon t =>
    simp only [Sys.next, List.getElem?_modify] at h
    cases hth : s.threads[u]? with
    | none => rw [hth] at h; cases h
    | some th =>
      rw [hth] at h
      have he := Option.some.inj h
      refine Or.inl ⟨th, rfl, ?_⟩
      by_cases ht : t = u
      · simp only [ht, if_true] at he
        subst he
        exact ⟨stop_tag th, stop_hist th, stop_prog th⟩
      · simp only [ht, if_false] at he
        subst he
        exact ⟨rfl, rfl, Or.inl rfl⟩
  | move m => exact Or.inl ⟨th', h, rfl, rfl, Or.inl rfl⟩
  | step t c =>
    rcases next_step body s t c with ⟨th, op, k, hth, hp, he⟩ | he
    · rw [he] at h
      by_cases ht : t = u
      · subst ht
        have hlt := (List.getElem?_eq_some_iff.mp hth).1
        rw [List.getElem?_set_self hlt] at h
        exact Or.inr (Or.inr ⟨c, th, op, k, rfl, hth, hp, (Option.some.inj h).symm⟩)
      · rw [List.getElem?_set_ne ht] at h
        exact Or.inl ⟨th', h, rfl, rfl, Or.inl rfl⟩
    · rw [he] at h
      exact Or.inl ⟨th', h, rfl, rfl, Or.inl rfl⟩

theorem calls_next {l : Label M Tag} {op' : Op} (h : (s.next body l).Calls u th' op') :
    (∃ th op, s.Calls u th op ∧ th'.tag = th.tag) ∨ (l = .spawn th'.tag ∧ u = s.threads.length) := by
  obtain ⟨hth', k', hp'⟩ := h
  have hold : ∀ {th}, s.threads[u]? = some th → th'.tag = th.tag → (th'.prog = th.prog ∨ th'.prog = .crash) →
      ∃ th op, s.Calls u th op ∧ th'.tag = th.tag := by
    intro th hth htag hprog
    rcases hprog with hprog | hprog
    · exact ⟨th, op', ⟨hth, k', hprog.symm.trans hp'⟩, htag⟩
    · rw [hprog] at hp'
      cases hp'
  rcases next_thread body hth' with ⟨th, hth, htag, -, hprog⟩ | ⟨g, rfl, rfl⟩ | ⟨c, th, op, k, rfl, hth, hp, rfl⟩
  · exact Or.inl (hold hth htag hprog)
  · rcases Nat.lt_or_ge u s.threads.length with hu | hu
    · simp only [Sys.next, List.getElem?_append_left hu] at hth'
      exact Or.inl (hold hth' rfl (Or.inl rfl))
    · refine Or.inr ⟨rfl, ?_⟩
      have hlt := (List.getElem?_eq_some_iff.mp hth').1
      simp only [Sys.next, List.length_append, List.length_singleton] at hlt
      omega
  · exact Or.inl ⟨th, op, ⟨hth, k, hp⟩, rfl⟩

theorem next_keeps (l : Label M Tag) (h : s.threads[u]? = some th) : ∃ th', (s.next body l).threads[u]? = some th' ∧
      th'.tag = th.tag ∧ th.hist <:+ th'.hist := by
  have hlt := (List.getElem?_eq_some_iff.mp h).1
  cases l with
  | spawn g =>
    exact ⟨th, by simp only [Sys.next, List.getElem?_append_left hlt, h], rfl, List.suffix_refl _⟩
  | abandon t =>
    simp only [Sys.next, List.getElem?_modify, h]
    by_cases ht : t = u
    · exact ⟨th.stop, by simp [ht], stop_tag th, stop_hist th ▸ List.suffix_refl _⟩
    · exact ⟨th, by simp [ht], rfl, List.suffix_refl _⟩
  | move m => exact ⟨th, h, rfl, List.suffix_refl _⟩
  | step t c =>
    rcases next_step body s t c with ⟨th₀, op, k, hth, hp, he⟩ | he
    · rw [he]
      by_cases ht : t = u
      · subst ht
        obtain rfl : th₀ = th := Option.mem_unique hth h
        exact ⟨_, List.getElem?_set_self hlt, rfl, List.suffix_cons _ _⟩
      · exact ⟨th, (List.getElem?_set_ne ht).trans h, rfl, List.suffix_refl _⟩
    · rw [he]
      exact ⟨th, h, rfl, List.suffix_refl _⟩

end Run

section Invariants
variable {Op : Type} {Res : Op → Type} {M : Machine Op Res} {Tag α : Type}
variable {body : Tag → Prog Op Res α}

/-- Every thread still follows the specification of what it was started as. -/
def Conforms (S : Tag → Hist M → M.World → Op → Prop) (Q : Tag → Hist M → α → Prop) (s : Sys M Tag α) : Prop :=
  ∀ th ∈ s.threads, Follows M (S th.tag) (Q th.tag) th.prog th.hist

/- The histories tell what happened, in order, and the world has only grown since. -/
def Recorded (s : Sys M Tag α) : Prop :=
  ∀ th ∈ s.threads, (∀ e ∈ th.hist, M.le e.post s.world ∧ ∃ c, e = M.event c e.op e.pre) ∧
    th.hist.Pairwise fun e e' => M.le e'.post e.pre

variable {S : Tag → Hist M → M.World → Op → Prop} {Q : Tag → Hist M → α → Prop}
variable {s : Sys M Tag α}

theorem recorded_le (hr : Recorded s) {th : Thread M Tag α} (hth : th ∈ s.threads) {e : Event Op Res M.World}
    (he : e ∈ th.hist) :
    M.le e.post s.world := ((hr th hth).1 e he).1

theorem recorded_mono {s' : Sys M Tag α} (hr : Recorded s) (hle : M.le s.world s'.world)
    (hth : ∀ th ∈ s'.threads, ∃ th' ∈ s.threads, th.hist = th'.hist) : Recorded s' := by
  intro th hm
  obtain ⟨th', hm', hh⟩ := hth th hm
  rw [hh]
  have ho := hr th' hm'
  exact ⟨fun e he => ⟨M.le_trans (ho.1 e he).1 hle, (ho.1 e he).2⟩, ho.2⟩

theorem recorded_next (l : Label M Tag) (hr : Recorded s) : Recorded (s.next body l) := by
  cases l with
  | spawn g =>
    intro th hm
    rcases List.mem_append.mp hm with hm | hm
    · exact hr th hm
    · rw [List.mem_singleton.mp hm]
      exact ⟨by simp, List.Pairwise.nil⟩
  | abandon t =>
    refine recorded_mono hr (M.le_refl _) fun th hm => ?_
    rcases mem_abandon body hm with hm | ⟨th', hm', rfl⟩
    · exact ⟨th, hm, rfl⟩
    · exact ⟨th', hm', stop_hist th'⟩
  | move m => exact recorded_mono hr (M.move_le m _) fun th hm => ⟨th, hm, rfl⟩
  | step t c =>
    rcases next_step body s t c with ⟨th, op, k, hth, hp, he⟩ | he
    · have hmem : th ∈ s.threads := List.mem_of_getElem? hth
      have hexec := M.exec_le c op s.world
      rw [he]
      intro th' hm
      rcases List.mem_or_eq_of_mem_set hm with hm | rfl
      · have ho := hr th' hm
        exact ⟨fun e hh => ⟨M.le_trans (ho.1 e hh).1 hexec, (ho.1 e hh).2⟩, ho.2⟩
      · have ho := hr th hmem
        refine ⟨?_, List.pairwise_cons.mpr ⟨fun e hh => (ho.1 e hh).1, ho.2⟩⟩
        intro e hh
        rcases List.mem_cons.mp hh with rfl | hh
        · exact ⟨M.le_refl _, c, rfl⟩
        · exact ⟨M.le_trans (ho.1 e hh).1 hexec, (ho.1 e hh).2⟩
    · rw [he]
      exact hr

theorem conforms_next (l : Label M Tag) (hb : ∀ g, l = .spawn g → Follows M (S g) (Q g) (body g) []) (hr : Recorded s)
    (hc : Conforms S Q s) : Conforms S Q (s.next body l) := by
  cases l with
  | spawn g =>
    intro th hm
    rcases List.mem_append.mp hm with hm | hm
    · exact hc th hm
    · rw [List.mem_singleton.mp hm]
      exact hb g rfl
  | abandon t =>
    intro th hm
    rcases mem_abandon body hm with hm | ⟨th', hm', rfl⟩
    · exact hc th hm
    · have ho := hc th' hm'
      rw [stop_hist, stop_tag]
      rcases stop_prog th' with hp | hp <;> rw [hp]
      · exact ho
      · trivial
  | move m => exact hc
  | step t c =>
    rcases next_step body s t c with ⟨th, op, k, hth, hp, he⟩ | he
    · have hmem : th ∈ s.threads := List.mem_of_getElem? hth
      rw [he]
      intro th' hm
      rcases List.mem_or_eq_of_mem_set hm with hm | rfl
      · exact hc th' hm
      · have ho := hc th hmem
        rw [hp] at ho
        exact (ho s.world fun e hh => recorded_le hr hmem hh).2 c
    · rw [he]
      exact hc

theorem conforms_call (hr : Recorded s) (hc : Conforms S Q s) {th : Thread M Tag α} {op : Op} (hcall : s.Calls t th op) :
    S th.tag th.hist s.world op := by
  obtain ⟨hth, k, hp⟩ := hcall
  have hmem : th ∈ s.threads := List.mem_of_getElem? hth
  have ho := hc th hmem
  rw [hp] at ho
  exact (ho s.world fun e hh => recorded_le hr hmem hh).1

/- What only ever grows or shrinks: `Rel` relates every world a caller has left behind to
the present one. -/
def Past (Rel : M.World → M.World → Prop) (s : Sys M Tag α) : Prop :=
  ∀ (u : ℕ) (th : Thread M Tag α), s.threads[u]? = some th → ∀ e ∈ th.hist, Rel e.post s.world

theorem past_next {Rel : M.World → M.World → Prop} (hrefl : ∀ w, Rel w w)
    (htrans : ∀ {a b c}, Rel a b → Rel b c → Rel a c) {l : Label M Tag} (hstep : Rel s.world (s.next body l).world)
    (hp : Past Rel s) : Past Rel (s.next body l) := by
  intro u th' hu e he
  rcases next_thread body hu with ⟨th, hth, -, hh, -⟩ | ⟨g, -, rfl⟩ | ⟨c, th, op, k, rfl, hth, hp', rfl⟩
  · exact htrans (hp u th hth e (hh ▸ he)) hstep
  · cases he
  · rcases List.mem_cons.mp he with rfl | he
    · rw [next_call body hth hp']
      exact hrefl _
    · exact htrans (hp u th hth e he) hstep

end Invariants

section Returning
variable {Op : Type} {Res : Op → Type} {M : Machine Op Res} {Tag α : Type}
variable {body : Tag → Prog Op Res α} {A : Tag → Op → M.World → Prop} {G : Tag → Prop}

/- The thread `t`, if it was started as something in `G`, has not crashed and no admitted
answer can crash it. -/
def Sys.Returning (G : Tag → Prop) (A : Tag → Op → M.World → Prop) (t : ℕ) (s : Sys M Tag α) : Prop :=
  ∀ th, s.threads[t]? = some th → G th.tag → Returns M (A th.tag) (fun _ => True) th.prog

/-- Each call of a thread in `G` is made in a world `A` admits for it. -/
def Sys.Answered (G : Tag → Prop) (A : Tag → Op → M.World → Prop) (s : Sys M Tag α) : Label M Tag → Prop
  | .step t _ => ∀ th op, s.Calls t th op → G th.tag → A th.tag op s.world
  | _ => True

theorem stop_ne {s : Sys M Tag α} {t u : ℕ} (h : u ≠ t) : (s.next body (.abandon u)).threads[t]? = s.threads[t]? := by
  simp [Sys.next, h]

theorem returning_next {s : Sys M Tag α} {l : Label M Tag} (hb : ∀ g, G g → Returns M (A g) (fun _ => True) (body g))
    (hs : s.Returning G A t) (hl : s.Answered G A l) (hab : l ≠ .abandon t) : (s.next body l).Returning G A t := by
  intro th' hth' hg
  cases l with
  | spawn g =>
    rcases next_thread body hth' with ⟨th, hth, htag, -, hprog⟩ | ⟨g', he, rfl⟩ | ⟨c, th, op, k, he, -⟩
    · simp only [Sys.next, List.getElem?_append_left (List.getElem?_eq_some_iff.mp hth).1] at hth'
      exact hs th' hth' hg
    · exact hb g' hg
    · cases he
  | abandon u =>
    rw [stop_ne fun hu => hab (by rw [hu])] at hth'
    exact hs th' hth' hg
  | move m => exact hs th' hth' hg
  | step u c =>
    rcases next_step body s u c with ⟨th, op, k, hth, hp, he⟩ | he
    · rw [he] at hth'
      by_cases hu : u = t
      · subst hu
        rw [List.getElem?_set_self (List.getElem?_eq_some_iff.mp hth).1] at hth'
        cases hth'
        have hr := hs th hth hg
        rw [hp] at hr
        exact hr c s.world (hl th op ⟨hth, k, hp⟩ hg)
      · rw [List.getElem?_set_ne hu] at hth'
        exact hs th' hth' hg
    · rw [he] at hth'
      exact hs th' hth' hg

/-- The labels of an endless run, up to the `n`-th. -/
def upto (ls : ℕ → Label M Tag) (n : ℕ) : List (Label M Tag) := (List.range n).map ls

theorem run_upto (s : Sys M Tag α) (ls : ℕ → Label M Tag) (n : ℕ) :
    s.run body (upto ls (n + 1)) = (s.run body (upto ls n)).next body (ls n) := by
  unfold upto
  rw [List.range_succ, List.map_append, run_append]
  rfl

variable {th : Thread M Tag α}

theorem next_other {s : Sys M Tag α} {l : Label M Tag} (hth : s.threads[t]? = some th) (hstep : ∀ c, l ≠ .step t c)
    (hab : l ≠ .abandon t) : (s.next body l).threads[t]? = some th := by
  have hlt := (List.getElem?_eq_some_iff.mp hth).1
  cases l with
  | spawn g => simp only [Sys.next, List.getElem?_append_left hlt, hth]
  | abandon u => exact (stop_ne fun hu => hab (by rw [hu])).trans hth
  | move m => exact hth
  | step u c =>
    have hu : u ≠ t := fun hu => hstep c (by rw [hu])
    rcases next_step body s u c with ⟨th', op, k, hth', hp, he⟩ | he
    · rw [he, List.getElem?_set_ne hu]
      exact hth
    · rw [he]
      exact hth

section Scheduled
variable {s : Sys M Tag α} {ls : ℕ → Label M Tag} {t : ℕ}

theorem next_turn (hab : ∀ n, ls n ≠ .abandon t) {c : M.Choice} (d : ℕ) {n : ℕ}
    (hth : (s.run body (upto ls n)).threads[t]? = some th) (hc : ls (n + d) = .step t c) :
    ∃ m c', (s.run body (upto ls m)).threads[t]? = some th ∧ ls m = .step t c' := by
  induction d generalizing n with
  | zero => exact ⟨n, c, hth, hc⟩
  | succ d ih =>
    by_cases hn : ∃ c', ls n = .step t c'
    · obtain ⟨c', hc'⟩ := hn
      exact ⟨n, c', hth, hc'⟩
    · have hstep : ∀ c', ls n ≠ .step t c' := fun c' hc' => hn ⟨c', hc'⟩
      have hkeep : ((s.run body (upto ls n)).next body (ls n)).threads[t]? = some th :=
        next_other hth hstep (hab n)
      rw [← run_upto] at hkeep
      have hadd : n + 1 + d = n + (d + 1) := by omega
      exact ih hkeep (by rw [hadd]; exact hc)

/-- A thread that gets its turn again and again returns. -/
theorem returning_halts (hret : ∀ n, (s.run body (upto ls n)).Returning G A t) (hab : ∀ n, ls n ≠ .abandon t)
    (hturn : ∀ n, ∃ d c, ls (n + d) = .step t c) {n : ℕ} (hth : (s.run body (upto ls n)).threads[t]? = some th)
    (hg : G th.tag) : ∃ m th' a, (s.run body (upto ls m)).threads[t]? = some th' ∧ th'.prog = .ret a := by
  generalize hp : th.prog = p
  induction p generalizing n th with
  | ret a => exact ⟨n, th, a, hth, hp⟩
  | crash =>
    have hq := hret n th hth hg
    rw [hp] at hq
    exact hq.elim
  | call op k ih =>
    obtain ⟨d, c, hc⟩ := hturn n
    obtain ⟨m, c', hm, hc'⟩ := next_turn hab d hth hc
    have hnext := next_call body (c := c') hm hp
    rw [← hc', ← run_upto] at hnext
    have hself := congrArg (fun s' : Sys M Tag α => s'.threads[t]?) hnext
    simp only [List.getElem?_set_self (List.getElem?_eq_some_iff.mp hm).1] at hself
    exact ih _ hself hg rfl

end Scheduled

end Returning

end Klite.Lib
