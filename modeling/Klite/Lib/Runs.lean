import Mathlib.Data.List.Basic

/-!
# Runs of a labelled machine

A machine takes one label after the other; a label that does not apply changes nothing.
A property of the steps of a run follows from an invariant that every step keeps.
-/

namespace Klite.Lib

section Runs
variable {S L : Type} (next : S → L → S)

def runs (s : S) (ls : List L) : S := ls.foldl next s

/-- Every step of the run has the property, in the state it is made in. -/
def Each (P : S → L → Prop) : S → List L → Prop
  | _, [] => True
  | s, l :: ls => P s l ∧ Each P (next s l) ls

instance eachDecidable (P : S → L → Prop) [∀ s l, Decidable (P s l)] : (s : S) → (ls : List L) → Decidable (Each next P s ls)
  | _, [] => isTrue trivial
  | s, l :: ls => @instDecidableAnd _ _ _ (eachDecidable P (next s l) ls)

theorem runs_append (s : S) (ls ls' : List L) : runs next s (ls ++ ls') = runs next (runs next s ls) ls' :=
  List.foldl_append

variable {next} {P Q : S → L → Prop}

theorem each_append {s : S} {ls ls' : List L} :
    Each next P s (ls ++ ls') ↔ Each next P s ls ∧ Each next P (runs next s ls) ls' := by
  induction ls generalizing s with
  | nil => simp [Each, runs]
  | cons l ls ih =>
    show P s l ∧ Each next P (next s l) (ls ++ ls') ↔ (P s l ∧ Each next P (next s l) ls) ∧ _
    rw [ih, and_assoc]
    rfl

theorem each_and {s : S} {ls : List L} (h : Each next P s ls) (h' : Each next Q s ls) :
    Each next (fun s l => P s l ∧ Q s l) s ls := by
  induction ls generalizing s with
  | nil => trivial
  | cons l ls ih => exact ⟨⟨h.1, h'.1⟩, ih h.2 h'.2⟩

/-- The induction over a run: what the steps assume, an invariant and what they then do. -/
theorem each_of_invariant {Inv : S → Prop} (hstep : ∀ s l, Inv s → P s l → Q s l ∧ Inv (next s l)) {s : S}
    (h0 : Inv s) {ls : List L} (h : Each next P s ls) : Each next Q s ls := by
  induction ls generalizing s with
  | nil => trivial
  | cons l ls ih =>
    have hl := hstep s l h0 h.1
    exact ⟨hl.1, ih hl.2 h.2⟩

theorem runs_invariant {Inv : S → Prop} (hstep : ∀ s l, Inv s → P s l → Inv (next s l)) {s : S} (h0 : Inv s)
    {ls : List L} (h : Each next P s ls) : Inv (runs next s ls) := by
  induction ls generalizing s with
  | nil => exact h0
  | cons l ls ih => exact ih (hstep s l h0 h.1) h.2

end Runs

end Klite.Lib
