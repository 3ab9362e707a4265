import Klite.Object.Messages

/-!
# Manifests of several documents (internal/object/codec.go, `Decode`)

The separator between documents is a regular expression, and its white space takes line
ends as well: a match may reach over empty lines, but always stops where a line ends.
-/

namespace Klite
open Lib

/-- `\s` of a regular expression. -/
def reSpace (c : Char) : Bool := c = '\t' ∨ c = '\n' ∨ c = Char.ofNat 12 ∨ c = '\r' ∨ c = ' '

/-- unicode.IsSpace -/
def isSpace (c : Char) : Bool :=
  (9 ≤ c.toNat ∧ c.toNat ≤ 13) ∨ (0x2000 ≤ c.toNat ∧ c.toNat ≤ 0x200A) ∨
    c.toNat ∈ [0x20, 0x85, 0xA0, 0x1680, 0x2028, 0x2029, 0x202F, 0x205F, 0x3000]

/-- How much `\s*(#.*)?$` matches. The white space takes as much as it can, and gives back what it must. -/
def separatorTail : List Char → Option ℕ
  | [] => some 0
  | c :: cs =>
    if reSpace c then
      match separatorTail cs with
      | some n => some (n + 1)
      | none => if c = '\n' then some 0 else none
    else if c = '#' then some ((cs.takeWhile (· ≠ '\n')).length + 1)
    else none

/-- How much `docSeparator` matches at the start of a line. -/
def separatorAt : List Char → Option ℕ
  | '-' :: '-' :: '-' :: cs => (separatorTail cs).map (· + 3)
  | _ => none

/-- The text goes before the first piece. -/
def prepend (w : List Char) : List (List Char) → List (List Char)
  | [] => [w]
  | p :: ps => (w ++ p) :: ps

/-- `docSeparator.Split`: the pieces between the matches. The flag tells the start of a line, the number how much of a
match is still to be passed over. -/
def splitDocs : Bool → ℕ → List Char → List (List Char)
  | _, _, [] => [[]]
  | _, skip + 1, c :: cs => splitDocs (c = '\n') skip cs
  | bol, 0, c :: cs =>
    match if bol then separatorAt (c :: cs) else none with
    | some n => [] :: splitDocs (c = '\n') (n - 1) cs
    | none => prepend [c] (splitDocs (c = '\n') 0 cs)

section Decode
variable {Msg : Kind → Type} (C : CodecOf Msg)

def decodeDocs (i : ℕ) : List (List Char) → Except String (List (Envelope Msg))
  | [] => .ok []
  | doc :: docs =>
    if doc.all isSpace then decodeDocs (i + 1) docs
    else
      match decodeOne C (String.ofList doc) with
      | .error e => .error ("document " ++ toString (i + 1) ++ ": " ++ e)
      | .ok obj => (decodeDocs (i + 1) docs).map (obj.toList ++ ·)

/-- `Decode` (codec.go:37). -/
def decode (data : String) : Except String (List (Envelope Msg)) :=
  if data.utf8ByteSize > maxDecodeBytes then
    .error ("yaml input is " ++ toString data.utf8ByteSize ++ " bytes, limit " ++ toString maxDecodeBytes)
  else decodeDocs C 0 (splitDocs true 0 data.toList)

end Decode

/-! ### Texts with separators -/

/-- A line of three dashes, with white space and a comment after them. -/
structure Separator where
  spaces : List Char
  comment : Option (List Char)
  spaces_ok : ∀ c ∈ spaces, reSpace c ∧ c ≠ '\n'
  comment_ok : ∀ cs ∈ comment, '\n' ∉ cs

def Separator.line (s : Separator) : List Char := '-' :: '-' :: '-' :: (s.spaces ++ s.comment.elim [] ('#' :: ·))

def Separator.text (s : Separator) : List Char := s.line ++ ['\n']

/-- Lines of white space. -/
structure EmptyDoc where
  text : List Char
  blank : text.all isSpace
  closed : text = [] ∨ text.getLast? = some '\n'

/-- What stands between two documents: separators with empty documents between them. -/
structure Gap where
  empties : List (Separator × EmptyDoc)
  last : Separator

def Gap.text (g : Gap) : List Char := (g.empties.flatMap fun e => e.1.text ++ e.2.text) ++ g.last.text

def manifest (gaps : List Gap) : List (List Char) → List Char
  | [] => []
  | d :: ds => d ++ (gaps.zip ds).flatMap fun x => x.1.text ++ x.2

/-- Whether a line starts after the text. -/
def lineStart : Bool → List Char → Bool
  | b, [] => b
  | _, c :: cs => lineStart (c = '\n') cs

/-- No line starts with three dashes. -/
def Dashless (d : List Char) : Prop := ∀ pre post, d = pre ++ post → lineStart true pre → ¬ ['-', '-', '-'] <+: post

/-- A rendered document starts with a key, ends its last line and has no line that starts with three dashes. -/
structure IsDoc (d : List Char) : Prop where
  starts : ∃ c rest, d = c :: rest ∧ ¬ isSpace c ∧ c ≠ '#'
  ends : d.getLast? = some '\n'
  dashless : Dashless d

def filled (p : List Char) : Bool := !p.all isSpace

variable {d : List Char}

theorem IsDoc.filled (h : IsDoc d) : Klite.filled d := by
  obtain ⟨c, rest, rfl, hc, -⟩ := h.starts
  simp [Klite.filled, hc]

theorem isSpace_of_re {c : Char} (h : reSpace c) : isSpace c := by
  unfold reSpace at h
  rw [decide_eq_true_eq] at h
  rcases h with rfl | rfl | rfl | rfl | rfl <;> decide

variable {w : List Char}

theorem lineStart_last (h : w.getLast? = some '\n') (b : Bool) : lineStart b w = true := by
  induction w generalizing b with
  | nil => cases h
  | cons c w ih =>
    unfold lineStart
    cases w with
    | nil =>
      cases h
      rfl
    | cons c' w => exact ih (by rwa [List.getLast?_cons_cons] at h) _

/-! ### Splitting -/

theorem prepend_nil {ps : List (List Char)} (h : ps ≠ []) : prepend [] ps = ps := by
  cases ps with
  | nil => exact absurd rfl h
  | cons p ps => rfl

theorem prepend_prepend (w w' : List Char) (ps : List (List Char)) : prepend w (prepend w' ps) = prepend (w ++ w') ps := by
  cases ps with
  | nil => rfl
  | cons p ps => simp [prepend]

theorem splitDocs_ne_nil (b : Bool) (skip : ℕ) (t : List Char) : splitDocs b skip t ≠ [] := by
  fun_induction splitDocs b skip t with
  | case1 => exact List.cons_ne_nil _ _
  | case2 _ _ _ _ ih => exact ih
  | case3 => exact List.cons_ne_nil _ _
  | case4 _ c cs _ ih =>
    cases h : splitDocs (c = '\n') 0 cs with
    | nil => exact List.cons_ne_nil _ _
    | cons p ps => exact List.cons_ne_nil _ _

theorem splitDocs_skip (u t : List Char) (b : Bool) : splitDocs b u.length (u ++ t) = splitDocs (lineStart b u) 0 t := by
  induction u generalizing b with
  | nil => rfl
  | cons c u ih =>
    show splitDocs b (u.length + 1) (c :: (u ++ t)) = splitDocs (lineStart (c = '\n') u) 0 t
    rw [splitDocs, ih]

theorem splitDocs_plain (d t : List Char) (b : Bool)
    (h : ∀ pre post, d = pre ++ post → post ≠ [] → lineStart b pre → separatorAt (post ++ t) = none) :
    splitDocs b 0 (d ++ t) = prepend d (splitDocs (lineStart b d) 0 t) := by
  induction d generalizing b with
  | nil => exact (prepend_nil (splitDocs_ne_nil _ _ _)).symm
  | cons c d ih =>
    have hnone : (if b then separatorAt (c :: (d ++ t)) else none) = none := by
      split
      · next hb => exact h [] (c :: d) rfl (List.cons_ne_nil _ _) hb
      · rfl
    have hrest : splitDocs (c = '\n') 0 (d ++ t) = prepend d (splitDocs (lineStart (c = '\n') d) 0 t) := by
      apply ih
      intro pre post he hne hl
      exact h (c :: pre) post (by rw [he]; rfl) hne hl
    rw [List.cons_append, splitDocs, hnone]
    dsimp only
    rw [hrest, prepend_prepend]
    rfl

theorem separatorAt_space {c : Char} (h : isSpace c) (cs : List Char) : separatorAt (c :: cs) = none := by
  have hc : c ≠ '-' := by
    rintro rfl
    exact absurd h (by decide)
  unfold separatorAt
  split
  · next he => exact absurd (List.cons.inj he).1 hc
  · rfl

theorem splitDocs_blank (hw : w.all isSpace) (hl : w.getLast? = some '\n') (b : Bool) (t : List Char) :
    splitDocs b 0 (w ++ t) = prepend w (splitDocs true 0 t) := by
  rw [splitDocs_plain, lineStart_last hl]
  intro pre post he hne _
  cases post with
  | nil => exact absurd rfl hne
  | cons c post =>
    apply separatorAt_space
    apply List.all_eq_true.mp hw
    rw [he]
    exact List.mem_append_right _ List.mem_cons_self

theorem splitDocs_doc (hd : IsDoc d) (t : List Char) : splitDocs true 0 (d ++ t) = prepend d (splitDocs true 0 t) := by
  rw [splitDocs_plain, lineStart_last hd.ends]
  intro pre post he hne hl
  unfold separatorAt
  split
  · next cs hcs =>
    -- The document ends a line, so the three dashes would be in it.
    refine absurd ?_ (hd.dashless pre post he hl)
    have hend : post.getLast? = some '\n' := by
      have h := hd.ends
      rwa [he, List.getLast?_append_of_ne_nil _ hne] at h
    match post, hcs, hend with
    | [c], hcs, hend =>
      cases hend
      cases (List.cons.inj hcs).1
    | [c, c'], hcs, hend =>
      cases hend
      cases (List.cons.inj (List.cons.inj hcs).2).1
    | c :: c' :: c'' :: rest, hcs, _ =>
      simp only [List.cons_append, List.cons.injEq] at hcs
      obtain ⟨rfl, rfl, rfl, -⟩ := hcs
      exact ⟨rest, rfl⟩
  · rfl

/-! ### What a separator takes -/

theorem separatorTail_spaces (hw : ∀ c ∈ w, reSpace c ∧ c ≠ '\n') {t : List Char} {n : ℕ} (h : separatorTail t = some n) :
    separatorTail (w ++ t) = some (w.length + n) := by
  induction w with
  | nil => simpa using h
  | cons c w ih =>
    rw [List.cons_append, separatorTail, if_pos (hw c List.mem_cons_self).1,
      ih fun c' hc' => hw c' (List.mem_cons_of_mem _ hc')]
    simp only [List.length_cons, Option.some.injEq]
    omega

theorem separatorAt_text (s : Separator) (t : List Char) : separatorAt (s.text ++ t) = some s.line.length ∨
    ∃ k, separatorTail t = some k ∧ separatorAt (s.text ++ t) = some (s.text.length + k) := by
  have hat : separatorAt (s.text ++ t) =
      (separatorTail (s.spaces ++ (s.comment.elim [] ('#' :: ·) ++ '\n' :: t))).map (· + 3) := by
    unfold Separator.text Separator.line separatorAt
    simp
  rw [hat]
  unfold Separator.text Separator.line
  cases hc : s.comment with
  | some cs =>
    have hcs : separatorTail ('#' :: (cs ++ '\n' :: t)) = some (cs.length + 1) := by
      rw [separatorTail, if_neg (by decide), if_pos rfl, List.takeWhile_append_of_pos]
      · simp
      · intro c hin
        simp only [ne_eq, decide_eq_true_eq]
        rintro rfl
        exact s.comment_ok cs hc hin
    refine .inl ?_
    rw [Option.elim_some, List.cons_append, separatorTail_spaces s.spaces_ok hcs]
    simp
  | none =>
    rw [Option.elim_none, List.nil_append, List.append_nil]
    cases ht : separatorTail t with
    | none =>
      have hnl : separatorTail ('\n' :: t) = some 0 := by
        rw [separatorTail, if_pos (by decide), ht]
        rfl
      refine .inl ?_
      rw [separatorTail_spaces s.spaces_ok hnl]
      rfl
    | some k =>
      have hnl : separatorTail ('\n' :: t) = some (k + 1) := by
        rw [separatorTail, if_pos (by decide), ht]
      refine .inr ⟨k, rfl, ?_⟩
      rw [separatorTail_spaces s.spaces_ok hnl]
      simp
      omega

theorem separatorTail_blank (hw : w.all isSpace) {t : List Char} {k : ℕ} (h : separatorTail (w ++ '-' :: t) = some k) :
    k < w.length := by
  induction w generalizing k with
  | nil =>
    rw [List.nil_append, separatorTail, if_neg (by decide), if_neg (by decide)] at h
    cases h
  | cons c w ih =>
    rw [List.all_cons, Bool.and_eq_true] at hw
    rw [List.cons_append, separatorTail] at h
    split at h
    · split at h
      · next n hn =>
        cases h
        exact Nat.succ_lt_succ (ih hw.2 hn)
      · split at h
        · cases h
          exact Nat.succ_pos _
        · cases h
    · split at h
      · next hc =>
        subst hc
        exact absurd hw.1 (by decide)
      · cases h

theorem separatorTail_doc (hd : IsDoc d) (t : List Char) : separatorTail (d ++ t) = none := by
  obtain ⟨c, rest, rfl, hspace, hhash⟩ := hd.starts
  have hre : ¬ reSpace c := fun h => hspace (isSpace_of_re h)
  rw [List.cons_append, separatorTail, if_neg hre, if_neg hhash]

/-! ### A manifest is split into its documents -/

theorem splitDocs_match {m : List Char} (u : List Char) (h : separatorAt (m ++ u) = some m.length) :
    ∃ b, splitDocs true 0 (m ++ u) = [] :: splitDocs b 0 u := by
  cases m with
  | nil =>
    -- A match has its three dashes.
    unfold separatorAt at h
    split at h
    · obtain ⟨n, -, hn⟩ := Option.map_eq_some_iff.mp h
      cases hn
    · cases h
  | cons c m =>
    refine ⟨lineStart (c = '\n') m, ?_⟩
    rw [List.cons_append] at h ⊢
    rw [splitDocs, if_pos rfl, h]
    dsimp only
    rw [List.length_cons, Nat.add_sub_cancel, splitDocs_skip]

theorem splitDocs_last (s : Separator) (hd : IsDoc d) (t : List Char) :
    splitDocs true 0 (s.text ++ (d ++ t)) = [] :: prepend ('\n' :: d) (splitDocs true 0 t) := by
  have hat : separatorAt (s.line ++ (['\n'] ++ (d ++ t))) = some s.line.length := by
    rw [← List.append_assoc]
    refine (separatorAt_text s (d ++ t)).resolve_right ?_
    rintro ⟨k, hk, -⟩
    rw [separatorTail_doc hd] at hk
    cases hk
  obtain ⟨b, hb⟩ := splitDocs_match _ hat
  unfold Separator.text
  rw [List.append_assoc, hb, splitDocs_blank (by decide) rfl, splitDocs_doc hd, prepend_prepend]
  rfl

theorem splitDocs_empty (s : Separator) (e : EmptyDoc) (t : List Char) : ∃ w, w.all isSpace ∧
    splitDocs true 0 (s.text ++ (e.text ++ '-' :: t)) = [] :: prepend w (splitDocs true 0 ('-' :: t)) := by
  rcases separatorAt_text s (e.text ++ '-' :: t) with hat | ⟨k, hk, hat⟩
  · refine ⟨'\n' :: e.text, by rw [List.all_cons, e.blank]; decide, ?_⟩
    have hlast : ('\n' :: e.text).getLast? = some '\n' := by
      rcases e.closed with h | h
      · rw [h]
        rfl
      · rw [List.getLast?_cons, h]
        rfl
    have htext : s.text ++ (e.text ++ '-' :: t) = s.line ++ ('\n' :: e.text ++ '-' :: t) := by
      unfold Separator.text
      simp
    rw [htext] at hat ⊢
    obtain ⟨b, hb⟩ := splitDocs_match _ hat
    rw [hb, splitDocs_blank (by rw [List.all_cons, e.blank]; decide) hlast]
  · have hlt := separatorTail_blank e.blank hk
    have hblank : (e.text.drop k).all isSpace :=
      List.all_eq_true.mpr fun c hc => List.all_eq_true.mp e.blank c (List.mem_of_mem_drop hc)
    have hlast : (e.text.drop k).getLast? = some '\n' := by
      rw [List.getLast?_drop, if_neg (by omega)]
      refine e.closed.resolve_left fun h => ?_
      rw [h] at hlt
      cases hlt
    refine ⟨e.text.drop k, hblank, ?_⟩
    have htext : s.text ++ (e.text ++ '-' :: t) = (s.text ++ e.text.take k) ++ (e.text.drop k ++ '-' :: t) := by
      rw [List.append_assoc, ← List.append_assoc (e.text.take k), List.take_append_drop]
    have hlen : s.text.length + k = (s.text ++ e.text.take k).length := by
      rw [List.length_append, List.length_take, min_eq_left hlt.le]
    rw [htext, hlen] at hat
    obtain ⟨b, hb⟩ := splitDocs_match _ hat
    rw [htext, hb, splitDocs_blank hblank hlast]

theorem splitDocs_gap (g : Gap) (hd : IsDoc d) (t : List Char) : ∃ blanks : List (List Char),
    (∀ w ∈ blanks, w.all isSpace) ∧
      splitDocs true 0 (g.text ++ (d ++ t)) = [] :: (blanks ++ prepend ('\n' :: d) (splitDocs true 0 t)) := by
  obtain ⟨empties, last⟩ := g
  unfold Gap.text
  dsimp only
  induction empties with
  | nil => exact ⟨[], fun w hw => (List.not_mem_nil hw).elim, splitDocs_last last hd t⟩
  | cons e empties ih =>
    obtain ⟨blanks, hblanks, hih⟩ := ih
    -- The next separator starts with a dash, whether it is the last one or not.
    obtain ⟨u, hu⟩ : ∃ u, ((empties.flatMap fun e => e.1.text ++ e.2.text) ++ last.text) ++ (d ++ t) = '-' :: u := by
      cases empties with
      | nil => exact ⟨_, rfl⟩
      | cons e' empties => exact ⟨_, rfl⟩
    obtain ⟨w, hw, hsplit⟩ := splitDocs_empty e.1 e.2 u
    refine ⟨w :: blanks, fun w' hw' => ?_, ?_⟩
    · rcases List.mem_cons.mp hw' with rfl | hw'
      · exact hw
      · exact hblanks w' hw'
    · rw [← hu, hih] at hsplit
      rw [List.flatMap_cons, List.append_assoc, List.append_assoc, List.append_assoc,
        ← List.append_assoc (empties.flatMap _), hsplit]
      simp [prepend]

/-- The pieces of a manifest that are not white space are its documents; all but the first start with a line end. -/
theorem splitDocs_manifest {docs : List (List Char)} (hdocs : ∀ d ∈ docs, IsDoc d) (gaps : List Gap)
    (hgaps : docs.length ≤ gaps.length + 1) : (splitDocs true 0 (manifest gaps docs)).filter filled =
      docs.take 1 ++ (docs.drop 1).map ('\n' :: ·) := by
  have hrest : ∀ (ds : List (List Char)) (gs : List Gap), (∀ d ∈ ds, IsDoc d) → ds.length ≤ gs.length →
      ∃ ps, splitDocs true 0 ((gs.zip ds).flatMap fun x => x.1.text ++ x.2) = [] :: ps ∧
        ps.filter filled = ds.map ('\n' :: ·) := by
    intro ds
    induction ds with
    | nil =>
      intro gs _ _
      exact ⟨[], by rw [List.zip_nil_right]; rfl, rfl⟩
    | cons d ds ih =>
      intro gs hds hlen
      cases gs with
      | nil => cases hlen
      | cons g gs =>
        obtain ⟨ps, hps, hfilter⟩ := ih gs (fun d' hd' => hds d' (List.mem_cons_of_mem _ hd')) (Nat.le_of_succ_le_succ hlen)
        obtain ⟨blanks, hblanks, hsplit⟩ := splitDocs_gap g (hds d List.mem_cons_self) ((gs.zip ds).flatMap fun x => x.1.text ++ x.2)
        refine ⟨_, by rw [List.zip_cons_cons, List.flatMap_cons, List.append_assoc, hsplit], ?_⟩
        have hnone : blanks.filter filled = [] := by
          rw [List.filter_eq_nil_iff]
          intro w hw
          unfold filled
          rw [hblanks w hw]
          decide
        have hdoc : filled ('\n' :: d) := (hds d List.mem_cons_self).filled
        rw [List.filter_append, hnone, hps, List.nil_append, prepend, List.append_nil, List.filter_cons_of_pos hdoc, hfilter]
        rfl
  cases docs with
  | nil => rfl
  | cons d ds =>
    obtain ⟨ps, hps, hfilter⟩ := hrest ds gaps (fun d' hd' => hdocs d' (List.mem_cons_of_mem _ hd')) (Nat.le_of_succ_le_succ hgaps)
    unfold manifest
    rw [splitDocs_doc (hdocs d List.mem_cons_self), hps, prepend, List.append_nil,
      List.filter_cons_of_pos (hdocs d List.mem_cons_self).filled, hfilter]
    rfl

/-! ### Every piece is part of the text -/

theorem splitDocs_part (b : Bool) (skip : ℕ) (t : List Char) :
    (∀ p ∈ splitDocs b skip t, p <:+: t) ∧ (skip = 0 → ∀ p ps, splitDocs b skip t = p :: ps → p <+: t) := by
  fun_induction splitDocs b skip t with
  | case1 =>
    refine ⟨fun p hp => ?_, fun _ p ps h => ?_⟩
    · rw [List.mem_singleton.mp hp]
    · rw [← (List.cons.inj h).1]
  | case2 _ n c cs ih => exact ⟨fun p hp => List.infix_cons (ih.1 p hp), nofun⟩
  | case3 _ c cs n _ ih =>
    refine ⟨fun p hp => ?_, fun _ p ps h => ?_⟩
    · rcases List.mem_cons.mp hp with rfl | hp
      · exact List.nil_infix
      · exact List.infix_cons (ih.1 p hp)
    · rw [← (List.cons.inj h).1]
      exact List.nil_prefix
  | case4 _ c cs _ ih =>
    obtain ⟨p, ps, hps⟩ : ∃ p ps, splitDocs (c = '\n') 0 cs = p :: ps :=
      List.exists_cons_of_ne_nil (splitDocs_ne_nil _ _ _)
    have hhead : c :: p <+: c :: cs := (List.prefix_cons_inj c).mpr (ih.2 rfl p ps hps)
    rw [hps]
    refine ⟨fun q hq => ?_, fun _ q qs h => ?_⟩
    · rcases List.mem_cons.mp hq with rfl | hq
      · exact hhead.isInfix
      · exact List.infix_cons (ih.1 q (by rw [hps]; exact List.mem_cons_of_mem _ hq))
    · rw [← (List.cons.inj h).1]
      exact hhead

theorem utf8ByteSize_part {p : List Char} {data : String} (h : p <:+: data.toList) :
    (String.ofList p).utf8ByteSize ≤ data.utf8ByteSize := by
  obtain ⟨pre, post, h⟩ := h
  have hdata : data = String.ofList pre ++ String.ofList p ++ String.ofList post := by
    rw [← String.ofList_append, ← String.ofList_append, h, String.ofList_toList]
  rw [hdata, String.utf8ByteSize_append, String.utf8ByteSize_append]
  omega

/-! ### Decoding -/

section Back
variable {Msg : Kind → Type} {C : CodecOf Msg}

theorem decodeDocs_filled {pieces : List (List Char)} {objs : List (Envelope Msg)}
    (h : List.Forall₂ (fun p o => decodeOne C (String.ofList p) = .ok (some o)) (pieces.filter filled) objs) (i : ℕ) :
    decodeDocs C i pieces = .ok objs := by
  induction pieces generalizing objs i with
  | nil =>
    cases h
    rfl
  | cons p pieces ih =>
    unfold decodeDocs
    by_cases hp : filled p
    · rw [List.filter_cons_of_pos hp] at h
      have hall : ¬ p.all isSpace := by simpa [filled] using hp
      cases h with
      | cons hd htl =>
        rw [if_neg hall, hd]
        dsimp only
        rw [ih htl]
        rfl
    · rw [List.filter_cons_of_neg hp] at h
      have hall : p.all isSpace := by simpa [filled] using hp
      rw [if_pos hall, ih h]

end Back

/-- What the libraries are assumed to do with one object: protojson reads back what it renders, YAML what it renders,
also after an empty line, and what it renders is a document. -/
structure Rendered (C : CodecOf Pb.Msg) (o : Envelope Pb.Msg) : Prop where
  protojson : C.unmarshal o.kind (C.marshal o.kind o.obj) = .ok o.obj
  yaml : ∀ lead ∈ ["", "\n"], C.yamlToJSON (lead ++ encode C o) = .ok (.obj (encodeJSON C o).toList)
  doc : IsDoc (encode C o).toList

theorem decodeOne_rendered {C : CodecOf Pb.Msg} (hC : C.marshal = Pb.marshal) {o : Envelope Pb.Msg} (h : Rendered C o)
    {lead : String} (hlead : lead ∈ ["", "\n"]) (hsize : (lead ++ encode C o).utf8ByteSize ≤ maxDecodeBytes) :
    decodeOne C (lead ++ encode C o) = .ok (some o) := by
  have hback : ReadsBack C o :=
    { protojson := h.protojson
      fields := by
        rw [hC]
        exact Pb.marshal_fields o.kind o.obj
      action := by
        rw [hC]
        exact Pb.marshal_action o.kind o.obj }
  exact decodeOne_reads hback (h.yaml lead hlead) hsize

/-- The manifest round trip. The documents of the objects, with separators and empty documents between them, decode to
the objects in their order. -/
theorem manifest_round_trips (C : CodecOf Pb.Msg) (hC : C.marshal = Pb.marshal) (objs : List (Envelope Pb.Msg))
    (hlib : ∀ o ∈ objs, Rendered C o) (gaps : List Gap) (hgaps : objs.length ≤ gaps.length + 1) (data : String)
    (hdata : data.toList = manifest gaps (objs.map fun o => (encode C o).toList))
    (hsize : data.utf8ByteSize ≤ 4 * 2 ^ 20) : decode C data = .ok objs := by
  have hdocs : ∀ d ∈ objs.map fun o => (encode C o).toList, IsDoc d := by
    intro d hd
    obtain ⟨o, ho, rfl⟩ := List.mem_map.mp hd
    exact (hlib o ho).doc
  have hsplit := splitDocs_manifest hdocs gaps (by rw [List.length_map]; exact hgaps)
  have hmax : data.utf8ByteSize ≤ maxDecodeBytes := hsize
  -- A piece is no longer than the text, and one with a document in it decodes.
  have hone : ∀ lead ∈ ["", "\n"], ∀ o ∈ objs,
      lead.toList ++ (encode C o).toList ∈ (splitDocs true 0 data.toList).filter filled →
      decodeOne C (String.ofList (lead.toList ++ (encode C o).toList)) = .ok (some o) := by
    intro lead hlead o ho hp
    have hle := utf8ByteSize_part ((splitDocs_part _ _ _).1 _ (List.mem_filter.mp hp).1)
    rw [String.ofList_append, String.ofList_toList, String.ofList_toList] at hle ⊢
    exact decodeOne_rendered hC (hlib o ho) hlead (hle.trans hmax)
  unfold decode
  rw [if_neg (not_lt.mpr hmax)]
  apply decodeDocs_filled
  rw [hdata] at hone ⊢
  rw [hsplit] at hone ⊢
  cases objs with
  | nil => exact .nil
  | cons o objs =>
    refine .cons (hone "" (by decide) o List.mem_cons_self (List.mem_append_left _ List.mem_cons_self)) ?_
    show List.Forall₂ _ ((objs.map fun o => (encode C o).toList).map ('\n' :: ·)) objs
    rw [List.map_map, List.forall₂_map_left_iff, List.forall₂_same]
    intro o' ho'
    refine hone "\n" (by decide) o' (List.mem_cons_of_mem _ ho') (List.mem_append_right _ ?_)
    rw [List.map_cons, List.drop_one, List.tail_cons, List.map_map]
    exact List.mem_map_of_mem ho'

/-! ### Block style -/

-- A text of digits would be read as a number, one with other characters may be read as something else.
def scalarText (s : String) : String :=
  if s.toList.all Char.isDigit then "\"" ++ s ++ "\""
  else if s.toList.all fun c => c.isAlphanum ∨ c ∈ ['-', '.', '/', '_'] then s
  else "'" ++ s ++ "'"

def hang (mark : String) : List String → List String
  | [] => []
  | l :: ls => (mark ++ l) :: ls.map ("  " ++ ·)

-- The items of a field are not indented.
def underKey (key : String) : Json → List String → List String
  | .arr (_ :: _), ls => (key ++ ":") :: ls
  | .obj (_ :: _), ls => (key ++ ":") :: ls.map ("  " ++ ·)
  | _, ls => ls.map (key ++ ": " ++ ·)

mutual
/-- The lines of a value as the YAML library writes them. -/
def Json.lines : Json → List String
  | .null => ["null"]
  | .bool b => [toString b]
  | .num q => [toString q]
  | .str s => [scalarText s]
  | .arr [] => ["[]"]
  | .arr (j :: items) => Json.itemLines (j :: items)
  | .obj [] => ["\x7b\x7d"]
  | .obj (f :: fields) => Json.fieldLines (f :: fields)
def Json.itemLines : List Json → List String
  | [] => []
  | j :: items => hang "- " (Json.lines j) ++ Json.itemLines items
def Json.fieldLines : List (String × Json) → List String
  | [] => []
  | (key, j) :: fields => underKey key j (Json.lines j) ++ Json.fieldLines fields
end

def unlines : List String → String
  | [] => ""
  | l :: ls => l ++ "\n" ++ unlines ls

theorem toList_unlines (ls : List String) : (unlines ls).toList = ls.flatMap fun l => l.toList ++ ['\n'] := by
  induction ls with
  | nil => rfl
  | cons l ls ih => simp [unlines, ih]

/-- The bytes of the lines, further to the right and with their line ends. -/
def weight (d : ℕ) : List String → ℕ
  | [] => 0
  | l :: ls => d + l.utf8ByteSize + 1 + weight d ls

theorem utf8ByteSize_unlines (ls : List String) : (unlines ls).utf8ByteSize = weight 0 ls := by
  induction ls with
  | nil => rfl
  | cons l ls ih =>
    rw [unlines, String.utf8ByteSize_append, String.utf8ByteSize_append, ih]
    simp [weight]
    rfl

section Weight
variable {d : ℕ} {key : String} {j : Json} {items : List Json} {fields inner : List (String × Json)}

end Weight

theorem isDoc_of_check {d : List Char} (hstart : d.head?.any fun c => !isSpace c && c ≠ '#')
    (hend : d.getLast? = some '\n') (hdash : ¬ ['-', '-', '-'] <:+: d) : IsDoc d where
  starts := by
    cases d with
    | nil => cases hstart
    | cons c rest => exact ⟨c, rest, rfl, by simpa using hstart⟩
  ends := hend
  dashless pre post he _ hpre := hdash (he ▸ hpre.isInfix.trans (List.suffix_append pre post).isInfix)

/-! ### Two documents -/

section Libraries
variable {Msg : Kind → Type} (marshal : (k : Kind) → Msg k → Mapping)

def yamlLines (o : Envelope Msg) : List String := Json.lines (.obj (encodeJSON (rendersOnly marshal) o).toList)

def printsAlike (m m' : Mapping) : Bool :=
  ["meta", "spec", "status"].all fun key => m[key]?.map Json.lines = m'[key]?.map Json.lines

/-- The libraries, with the texts that are read and the object that each stands for. -/
def librariesOn (docs : List (String × Envelope Msg)) : CodecOf Msg where
  yamlToJSON text :=
    match docs.lookup text with
    | some o => .ok (.obj (encodeJSON (rendersOnly marshal) o).toList)
    | none => .error "no such document"
  jsonToYAML m := unlines (Json.lines (.obj m.toList))
  marshal := marshal
  unmarshal k m :=
    let found := docs.findSome? fun d =>
      if h : d.2.kind = k then if printsAlike (marshal k (h ▸ d.2.obj)) m then some (h ▸ d.2.obj) else none else none
    found.elim (.error "unknown message") .ok

variable {marshal}

end Libraries

def frontService : Pb.Service where
  spec := some { selector := (∅ : Labels).insert "app" "web", port := 80, targetPort := 8080 }

def lockdown : Pb.NetworkPolicy where
  metadata := some { name := "lockdown", resourceVersion := 7 }
  spec := some { action := 2, rules := [{ source := "*", target := "web" }] }

def twoObjects : List (Envelope Pb.Msg) := [⟨.service, frontService⟩, ⟨.networkPolicy, lockdown⟩]

def twoTexts : List (String × Envelope Pb.Msg) :=
  twoObjects.flatMap fun o => ["", "\n"].map fun lead => (lead ++ unlines (yamlLines Pb.marshal o), o)

def serviceLines : List String :=
  ["apiVersion: klite/v1", "kind: Service", "spec:", "  port: 80", "  selector:", "    app: web", "  targetPort: 8080"]

def policyLines : List String :=
  ["apiVersion: klite/v1", "kind: NetworkPolicy", "metadata:", "  name: lockdown", "  resourceVersion: \"7\"", "spec:",
    "  action: DENY", "  rules:", "  - from: '*'", "    to: web"]

theorem twoObjects_lines : twoObjects.map (yamlLines Pb.marshal) = [serviceLines, policyLines] := by decide +kernel

set_option maxRecDepth 4000 in
theorem twoObjects_rendered : ∀ o ∈ twoObjects, Rendered (librariesOn Pb.marshal twoTexts) o := by
  intro o ho
  have hdoc : IsDoc (unlines (yamlLines Pb.marshal o)).toList := by
    have hm : yamlLines Pb.marshal o ∈ twoObjects.map (yamlLines Pb.marshal) := List.mem_map_of_mem ho
    rw [twoObjects_lines, List.mem_cons, List.mem_singleton] at hm
    rcases hm with hm | hm
    all_goals
      rw [hm, toList_unlines]
      exact isDoc_of_check (by decide +kernel) (by decide +kernel) (by decide +kernel)
  simp only [twoObjects, List.mem_cons, List.not_mem_nil, or_false] at ho
  rcases ho with rfl | rfl
  all_goals
    refine ⟨rfl, fun lead hlead => ?_, hdoc⟩
    simp only [List.mem_cons, List.not_mem_nil, or_false] at hlead
    rcases hlead with rfl | rfl <;> rfl

theorem blank_spaces : ∀ c ∈ [' '], reSpace c ∧ c ≠ '\n' := by
  intro c hc
  rw [List.mem_singleton.mp hc]
  decide

def twoSeparators : Gap where
  empties := [(⟨[' '], none, blank_spaces, by decide⟩, ⟨['\n'], by decide, by decide⟩)]
  last := ⟨[' '], some " policy".toList, blank_spaces, by decide⟩

theorem manifest_round_trips_two : decode (librariesOn Pb.marshal twoTexts)
    (unlines (serviceLines ++ ["--- ", "", "--- # policy"] ++ policyLines)) = .ok twoObjects := by
  have hdocs : (twoObjects.map fun o => (encode (librariesOn Pb.marshal twoTexts) o).toList) =
      [serviceLines, policyLines].map fun ls => (unlines ls).toList := by
    rw [← twoObjects_lines, List.map_map]
    rfl
  refine manifest_round_trips _ rfl twoObjects twoObjects_rendered [twoSeparators] (by decide) _ ?_ ?_
  · rw [hdocs]
    simp only [toList_unlines]
    decide +kernel
  · rw [utf8ByteSize_unlines]
    decide +kernel

end Klite
