import Timeline.Css.Content
import Timeline.Proofs.Css.Words

/-! Where tokens end.

No token ends between a carriage return and the line feed behind it. So going over a text token by
token, into every block and out of it, comes to going over it character by character
(`after_ofText`). -/
namespace Timeline.Css

open Text (Position isNewline)

/-! ### Seams -/

/-- Two texts that do not part a carriage return from its line feed. -/
def Seam (a b : List Char) : Prop := a.getLast? = some '\r' → b.head? ≠ some '\n'

namespace Seam

variable {a b rest : List Char}

theorem of_last (h : a.getLast? ≠ some '\r') : Seam a rest := fun hr => absurd hr h

theorem of_head (h : rest.head? ≠ some '\n') : Seam a rest := fun _ => h

theorem concat {c : Char} (h : c ≠ '\r') : Seam (a ++ [c]) rest :=
  of_last (by rw [List.getLast?_concat]; simpa using h)

/-- Only the last part of a text that is not empty counts. -/
theorem append (h : Seam b rest) (hb : b = [] → Seam a rest) : Seam (a ++ b) rest := by
  by_cases hn : b = []
  · rw [hn, List.append_nil]
    exact hb hn
  · intro hl
    rw [List.getLast?_append, List.getLast?_eq_some_getLast hn, Option.some_or, ← List.getLast?_eq_some_getLast] at hl
    exact h hl

theorem cons {c : Char} (h : Seam b rest) (hc : c ≠ '\r') : Seam (c :: b) rest :=
  append (a := [c]) h fun _ => of_last (by simpa using hc)

theorem dropWhile (cs : List Char) : Seam a (cs.dropWhile isBlank) := by
  refine of_head fun h => ?_
  have hblank := List.head?_dropWhile_not isBlank cs
  rw [h] at hblank
  cases hblank

end Seam

/-! ### Pieces -/

theorem seam_splitBlank (cs : List Char) : Seam (splitBlank cs).1 (splitBlank cs).2 := by
  fun_cases splitBlank cs with
  | case1 rest => exact .of_last (by simp)
  | case2 c rest hc _ =>
    intro hr hn
    obtain rfl : c = '\r' := by simpa using hr
    obtain ⟨more, rfl⟩ := List.head?_eq_some_iff.mp hn
    exact hc more rfl rfl
  | case3 => exact .of_last (by simp)
  | case4 => exact .of_last (by simp)

/-- An escape that does not begin with a newline. -/
theorem seam_escape {cs : List Char} (h : startsNewline cs = false) : Seam (escape cs).1.text (escape cs).2 := by
  fun_cases escape cs with
  | case1 => exact .of_last (by simp)
  | case2 c cs hc digits blank rest hb =>
    have hblank := seam_splitBlank ((c :: cs).drop digits.length)
    rw [hb] at hblank
    refine .cons (.append hblank fun _ => .of_last fun hl => ?_) (by decide)
    have hall : digits.all isHexDigit = true := List.all_takeWhile
    cases List.all_eq_true.mp hall _ (List.mem_of_getLast? hl)
  | case3 c cs hc =>
    refine .concat (a := ['\\']) ?_
    intro hcr
    subst hcr
    cases h

/-- A rule whose pieces keep a carriage return and its line feed together. -/
def PieceRule.Seams (rule : PieceRule) : Prop :=
  ∀ cs piece rest, rule.next cs = some (piece, rest) → Seam piece.text rest

theorem PieceRule.Seams.run {rule : PieceRule} (h : rule.Seams) (cs : List Char) :
    Seam (Piece.texts (rule.run cs).1) (rule.run cs).2 := by
  fun_induction PieceRule.run rule cs with
  | case1 => exact .of_last (by simp [Piece.texts])
  | case2 cs piece rest hn _ pieces last hrun ih =>
    rw [hrun] at ih
    rw [Piece.texts, List.flatMap_cons, ← Piece.texts]
    refine ih.append fun htexts => ?_
    have happ := rule.run_append rest
    rw [hrun] at happ
    dsimp only at happ
    rw [htexts, List.nil_append] at happ
    rw [happ]
    exact h cs piece rest hn

theorem nameRule_seams : nameRule.Seams := by
  intro cs piece rest h
  cases cs with
  | nil => cases h
  | cons c cs =>
    simp only [nameRule] at h
    split at h
    · rename_i hc
      obtain ⟨rfl, rfl⟩ := Prod.mk.inj (Option.some.inj h)
      refine .concat (a := []) ?_
      intro hcr
      subst hcr
      cases hc
    split at h
    · rename_i hs
      obtain ⟨rfl, rfl⟩ := Prod.mk.inj (Option.some.inj h)
      refine seam_escape ?_
      unfold startsEscape at hs
      split at hs <;> simp_all
    · cases h

theorem stringRule_seams (quote : Char) : (stringRule quote).Seams := by
  intro cs piece rest h
  cases cs with
  | nil => cases h
  | cons c cs =>
    simp only [stringRule] at h
    split at h
    · cases h
    rename_i hc
    split at h
    · split at h
      · obtain ⟨rfl, rfl⟩ := Prod.mk.inj (Option.some.inj h)
        exact .of_head (by simp)
      split at h
      · obtain ⟨rfl, rfl⟩ := Prod.mk.inj (Option.some.inj h)
        exact .cons (seam_splitBlank cs) (by decide)
      · rename_i hn
        obtain ⟨rfl, rfl⟩ := Prod.mk.inj (Option.some.inj h)
        exact seam_escape (by simpa using hn)
    · obtain ⟨rfl, rfl⟩ := Prod.mk.inj (Option.some.inj h)
      refine .concat (a := []) ?_
      intro hcr
      subst hcr
      exact hc (by simp [isNewline])

/-! ### Scanners -/

/-- A comment ends with its end mark or with the text. -/
theorem splitComment_end (cs : List Char) :
    (splitComment cs).2.2 = [] ∨ ∃ words, (splitComment cs).1 = words ++ ['/'] := by
  fun_induction splitComment cs with
  | case1 => exact .inr ⟨['*'], rfl⟩
  | case2 c cs _ text closed rest h ih =>
    rw [h] at ih
    rcases ih with hrest | ⟨words, hwords⟩
    · exact .inl hrest
    · exact .inr ⟨c :: words, congrArg (c :: ·) hwords⟩
  | case3 => exact .inl rfl

theorem seam_scanComment (cs : List Char) : Seam (scanComment cs).1.text (scanComment cs).2 := by
  rcases splitComment_end cs with h | ⟨words, h⟩
  · exact .of_head (by simp [scanComment, h])
  · refine .of_last ?_
    have htext : (scanComment cs).1.text = ('/' :: '*' :: words) ++ ['/'] := congrArg ('/' :: '*' :: ·) h
    rw [htext, List.getLast?_concat]
    decide

theorem seam_scanString {quote : Char} (hq : quote ≠ '\r') (cs : List Char) :
    Seam (scanString quote cs).1.text (scanString quote cs).2 := by
  have hrun := (stringRule_seams quote).run cs
  unfold scanString
  generalize (stringRule quote).run cs = result at hrun
  obtain ⟨pieces, rest⟩ := result
  cases rest with
  | nil => exact .of_head (by simp)
  | cons c more =>
    dsimp only
    split
    · exact .concat hq
    · exact hrun.cons hq

theorem seam_scanMarked {mark : Char} (hm : mark ≠ '\r') (kind : String → Kind) (cs : List Char) :
    Seam (scanMarked mark kind cs).1.text (scanMarked mark kind cs).2 :=
  (nameRule_seams.run cs).cons hm

theorem seam_scanSingle {c : Char} (hc : c ≠ '\r') (cs : List Char) :
    Seam (scanSingle c cs).1.text (scanSingle c cs).2 :=
  .concat (a := []) hc

theorem seam_scanNumeric (cs : List Char) : Seam (scanNumeric cs).1.text (scanNumeric cs).2 := by
  have hchars := mem_splitNumber cs
  generalize hnumber : splitNumber cs = result at hchars
  obtain ⟨number, rest⟩ := result
  have hseam : Seam number rest := by
    refine .of_last fun hl => ?_
    cases hchars _ (List.mem_of_getLast? hl)
  rw [scanNumeric_eq hnumber]
  split
  · exact .concat (by decide)
  split
  · refine (nameRule_seams.run rest).append fun htexts => ?_
    have happ := nameRule.run_append rest
    rw [htexts, List.nil_append] at happ
    rwa [happ]
  · exact hseam

theorem seam_scanUrl (start cs : List Char) : Seam (scanUrl start cs).1.text (scanUrl start cs).2 := by
  unfold scanUrl
  generalize urlRule.run (cs.dropWhile isBlank) = result
  obtain ⟨pieces, rest⟩ := result
  dsimp only
  cases rest.dropWhile isBlank with
  | nil => exact .of_head (by simp)
  | cons c more =>
    dsimp only
    split
    · exact .concat (by decide)
    · rcases badUrlRule_run_rest more with h | ⟨last, h⟩
      · rw [h]
        exact .of_head (by simp)
      · rw [h]
        exact .concat (by decide)

theorem seam_scanIdentLike (cs : List Char) : Seam (scanIdentLike cs).1.text (scanIdentLike cs).2 := by
  have hrun := nameRule_seams.run cs
  generalize hname : nameRule.run cs = result at hrun
  obtain ⟨pieces, rest⟩ := result
  rw [scanIdentLike_eq hname]
  split
  · split
    · exact seam_scanUrl _ _
    · exact .concat (by decide)
  · exact hrun

theorem seam_scanPunctuation {c : Char} (hc : c ≠ '\r') (cs : List Char) :
    Seam (scanPunctuation c cs).1.text (scanPunctuation c cs).2 := by
  unfold scanPunctuation
  split <;> try split
  all_goals first | exact seam_scanSingle hc _ | exact .of_last (by simp)

theorem seam_scanHash (cs : List Char) : Seam (scanHash cs).1.text (scanHash cs).2 := by
  unfold scanHash
  split
  · exact seam_scanMarked (by decide) _ cs
  split
  · exact seam_scanMarked (by decide) _ cs
  · exact seam_scanSingle (by decide) cs

theorem seam_scan (c : Char) (cs : List Char) : Seam (scan c cs).1.text (scan c cs).2 := by
  unfold scan
  split
  · exact .dropWhile (c :: cs)
  rename_i hblank
  have hc : c ≠ '\r' := by
    intro hcr
    subst hcr
    exact hblank (by decide)
  split
  · exact seam_scanString hc cs
  split
  · exact seam_scanHash cs
  split
  · exact seam_scanComment cs.tail
  split
  · exact seam_scanNumeric (c :: cs)
  split
  · exact .of_last (by simp)
  split
  · exact seam_scanIdentLike (c :: cs)
  split
  · exact seam_scanMarked (by decide) _ cs
  · exact seam_scanPunctuation hc cs

/-! ### Whole texts -/

/-- Token by token a place moves over a text as it does character by character. -/
theorem foldl_advance_lex (p : Position) (cs : List Char) :
    (lex cs).foldl (fun q t => q.advance t.text) p = p.advance cs := by
  fun_induction lex cs generalizing p with
  | case1 => rfl
  | case2 c cs ih =>
    rw [List.foldl_cons, ih, ← Position.advance_append _ _ _ (seam_scan c cs), (scan_cuts c cs).1]

theorem Content.after_eq_foldl (p : Position) (c : Content) :
    c.after p = c.tokens.foldl (fun q t => q.advance t.text) p := by
  induction c generalizing p with
  | nil => rfl
  | token t rest ih => exact ih _
  | block b opening body closing rest ihb ih =>
    rw [after, ih, tokens, List.foldl_cons, List.foldl_append, List.foldl_append, ← ihb]
    cases closing <;> rfl

/-- **The content of a text ends where the text ends.** -/
theorem Content.after_ofText (p : Position) (cs : List Char) : (ofText cs).after p = p.advance cs := by
  rw [after_eq_foldl, ofText, tokens_ofTokens, foldl_advance_lex]

end Timeline.Css
