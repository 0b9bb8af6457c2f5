import Timeline.Proofs.Css.Joined
import Timeline.Proofs.Css.Places
import Timeline.Proofs.Sheet.Acceptance
import Timeline.Proofs.Sheet.Shift

/-! Stylesheets one behind the other.

A rule ends with its first curly block at the latest. So where a balanced text ends with such a
block, no rule of it looks at what follows (`Rule.staysWithin`), and what follows is read as it is by itself,
only further on: the rules and faults of two such texts, put one behind the other, are those of the
first and then those of the second one (`ofText_append`). -/
namespace Timeline.Sheet

open Css (Content Diagnostic ItemReader Mark Passage Step Token)
open Css.Passage (Leaves)
open Text (Position)

namespace Rule

/-! ### Rules that stay within their content -/

/-- A step from a passage stays within it, whatever follows. -/
structure Stays (p : Passage) (step : Passage → Step Rule) : Prop where
  leaves : p.Leaves (step p).rest
  append : ∀ d, step (p.append d) = (step p).append d

theorem stop_nameInFront (start : Position) (p : Passage) : (nameInFront start p).2.2.stop = p.stop := by
  unfold nameInFront
  split
  · rename_i hc
    rw [Passage.stop, Passage.stop, hc]
    rfl
  · rename_i hc
    rw [Passage.stop, Passage.stop, hc]
    rfl
  · rfl

section

variable {p : Passage} (h : p.content.EndsInBlock)

include h

theorem endsInBlock_nameInFront (start : Position) : (nameInFront start p).2.2.content.EndsInBlock := by
  unfold nameInFront
  split
  · rename_i hc
    rw [hc] at h
    exact h.tail
  · rename_i hc
    rw [hc] at h
    exact h.tail
  · exact h

theorem nameInFront_append (start : Position) (d : Content) :
    nameInFront start (p.append d) =
      ((nameInFront start p).1, (nameInFront start p).2.1, (nameInFront start p).2.2.append d) := by
  obtain ⟨first, content⟩ := p
  cases content with
  | nil => exact absurd rfl h.ne_nil
  | token t rest =>
    obtain ⟨kind, text⟩ := t
    cases kind <;> rfl
  | block => rfl

theorem stays_afterKeyframes (start : Position) (vendor : Option String) : Stays p (afterKeyframes start vendor) := by
  have hn := endsInBlock_nameInFront (p := p.skipTrivia) h.skipTrivia start
  have hstop := (stop_nameInFront start p.skipTrivia).trans (Passage.stop_skipTrivia p)
  have happ := nameInFront_append (p := p.skipTrivia) h.skipTrivia start
  have hm : Mark.curlyBlock ∈ [Mark.curlyBlock, .semicolon, .closer] := by decide
  unfold afterKeyframes
  refine ⟨?_, fun d => ?_⟩
  · generalize nameInFront start p.skipTrivia = named at hn hstop
    have hp := Passage.endsInBlock_past hn hm
    dsimp only
    split
    · rename_i block hf
      have hleaves := (Passage.leaves_frame? hp hf).of_past
      exact ⟨hleaves.unbroken, hleaves.stop.trans hstop⟩
    · have hleaves := (Passage.leaves_skipSemicolon hp).of_past
      exact ⟨hleaves.unbroken, hleaves.stop.trans hstop⟩
  · simp only [Passage.skipTrivia_append h, Passage.trivia_append h, happ]
    generalize nameInFront start p.skipTrivia = named at hn
    have hp := Passage.endsInBlock_past hn hm
    simp only [Passage.upTo_append hn _ hm, Passage.past_append hn _ hm, Passage.frame?_append hp,
      Passage.skipSemicolon_append hp]
    cases (named.2.2.past [.curlyBlock, .semicolon, .closer]).frame? <;> rfl

theorem stays_afterAtKeyword (start : Position) (name : String) : Stays p (afterAtKeyword start name) := by
  have hm : Mark.curlyBlock ∈ [Mark.semicolon, .curlyBlock, .closer] := by decide
  have hp := Passage.endsInBlock_past h hm
  unfold afterAtKeyword
  refine ⟨?_, fun d => ?_⟩
  · dsimp only
    split
    · rename_i block hf
      exact (Passage.leaves_frame? hp hf).of_past
    · exact (Passage.leaves_skipSemicolon hp).of_past
  · simp only [Passage.upTo_append h _ hm, Passage.past_append h _ hm, Passage.frame?_append hp,
      Passage.skipSemicolon_append hp]
    cases (p.past [.semicolon, .curlyBlock, .closer]).frame? <;> rfl

theorem stays_styleRule : Stays p styleRule := by
  have hm : Mark.curlyBlock ∈ [Mark.curlyBlock, .closer] := by decide
  have hp := Passage.endsInBlock_past h hm
  unfold styleRule
  refine ⟨?_, fun d => ?_⟩
  · dsimp only
    split
    · rename_i block hf
      exact (Passage.leaves_frame? hp hf).of_past
    · exact ⟨.inr hp, Passage.stop_past _ p⟩
  · simp only [Passage.upTo_append h _ hm, Passage.past_append h _ hm, Passage.frame?_append hp]
    cases (p.past [.curlyBlock, .closer]).frame? <;> rfl

end

/-- A step with the faults found before it, from what follows them. -/
theorem Stays.afterFaults {p q : Passage} {step : Passage → Step Rule} (h : Stays q step) (hs : q.stop = p.stop)
    (found : List Diagnostic) :
    p.Leaves ((step q).afterFaults found).rest ∧
      ∀ d, some ((step (q.append d)).afterFaults found) = some (((step q).afterFaults found).append d) := by
  refine ⟨⟨h.leaves.unbroken, h.leaves.stop.trans hs⟩, fun d => ?_⟩
  rw [h.append]
  rfl

/-- **No rule looks past a curly block that ends the content that it is read from.** -/
theorem staysWithin : reader.StaysWithin := by
  intro p h
  have hq : p.skipTrivia.content.EndsInBlock := h.skipTrivia
  have hstop : p.skipTrivia.stop = p.stop := Passage.stop_skipTrivia p
  show ∃ s, next p = some s ∧ p.Leaves s.rest ∧ ∀ d, next (p.append d) = some (s.append d)
  unfold next
  simp only [Passage.skipTrivia_append h, Passage.trivia_append h]
  generalize p.skipTrivia = q at hq hstop
  obtain ⟨start, content⟩ := q
  cases content with
  | nil => exact absurd rfl hq.ne_nil
  | block => exact ⟨_, rfl, (stays_styleRule hq).afterFaults hstop _⟩
  | token t rest =>
    have hbehind : Passage.stop ⟨start.advance t.text, rest⟩ = p.stop := hstop
    obtain ⟨kind, text⟩ := t
    cases kind with
    | closing => exact ⟨_, rfl, ⟨.inr hq.tail, hbehind⟩, fun _ => rfl⟩
    | atKeyword name =>
      refine ⟨_, rfl, ?_⟩
      simp only [Passage.append, Content.append]
      cases vendor? name with
      | none => exact (stays_afterAtKeyword hq.tail start name).afterFaults hbehind _
      | some vendor => exact (stays_afterKeyframes hq.tail start _).afterFaults hbehind _
    | _ => exact ⟨_, rfl, (stays_styleRule hq).afterFaults hstop _⟩

end Rule

/-! ### Stylesheets -/

/-- The content of a balanced text stays the same, whatever follows its last curly bracket. -/
theorem ofText_content_append {a : List Char} (hb : Css.Balanced (Css.lex a))
    (hl : (Css.lex a).getLast? = some ⟨.closing .curly, ['\x7d']⟩) (b : List Char) :
    (Content.ofText a).Whole ∧ Content.ofText (a ++ b) = (Content.ofText a).append (Content.ofText b) := by
  have hw : (Content.ofText a).Whole :=
    (Content.whole_ofTokens_iff _ .origin).mpr ((Css.balanced_lex_iff a .origin).mp hb)
  refine ⟨hw, ?_⟩
  have happ := Content.ofTokens_append hw (Css.lex b)
  rw [Content.ofText, Content.tokens_ofTokens] at happ
  rw [Content.ofText, Css.lex_append hl rfl rfl b, happ]
  rfl

/-- **A text that follows a balanced one, with a curly bracket at its end, is read as it is by itself.** Its rules
and faults come behind those of the first text, as much further on as that text is long. -/
theorem ofText_append (a b : String) (hb : Css.Balanced (Css.lex a.toList))
    (hl : (Css.lex a.toList).getLast? = some ⟨.closing .curly, ['\x7d']⟩) :
    (Stylesheet.ofText (a ++ b)).rules = (Stylesheet.ofText a).rules ++
        (Stylesheet.ofText b).rules.map (Rule.shift (Position.origin.advance a.toList)) ∧
      (Stylesheet.ofText (a ++ b)).diagnostics = (Stylesheet.ofText a).diagnostics ++
        (Stylesheet.ofText b).diagnostics.map (Diagnostic.shift (Position.origin.advance a.toList)) := by
  obtain ⟨hw, hcontent⟩ := ofText_content_append hb hl b.toList
  have hends : (Content.ofText a.toList).EndsInBlock :=
    hw.endsInBlock (by rwa [Content.ofText, Content.tokens_ofTokens]) rfl
  have happ := Rule.reader.run_append Rule.staysWithin (fun _ => rfl) (p := .ofText a.toList) (.inr hends)
    (.ofText b.toList)
  have hstop : (Passage.ofText a.toList).stop = Position.origin.advance a.toList := Content.after_ofText _ _
  have hrun : Rule.reader.run ((Passage.ofText a.toList).append (.ofText b.toList)) =
      Rule.reader.run (.ofText (a ++ b).toList) := by
    rw [String.toList_append, Passage.ofText, Passage.ofText, hcontent]
    rfl
  have hshift := Rule.run_shift (Position.origin.advance a.toList) (.ofText b.toList)
  rw [hrun, hstop] at happ
  rw [Passage.ofText, Passage.shift_mk, Position.shift_origin] at hshift
  rw [hshift] at happ
  simp only [Stylesheet.ofText, happ]
  exact ⟨rfl, rfl⟩

/-- A keyframes rule without a name in front, and a stray and an open bracket behind. -/
theorem ofText_append_nameless :
    Css.Balanced (Css.lex "@keyframes\x7b\x7d\na\x7bb\x7d".toList) ∧
      (Css.lex "@keyframes\x7b\x7d\na\x7bb\x7d".toList).getLast? = some ⟨.closing .curly, ['\x7d']⟩ ∧
      (Stylesheet.ofText ("@keyframes\x7b\x7d\na\x7bb\x7d" ++ "\x7d @keyframes c\x7b")).rules =
        (Stylesheet.ofText "@keyframes\x7b\x7d\na\x7bb\x7d").rules ++
          (Stylesheet.ofText "\x7d @keyframes c\x7b").rules.map (Rule.shift ⟨1, 4⟩) ∧
      (Stylesheet.ofText ("@keyframes\x7b\x7d\na\x7bb\x7d" ++ "\x7d @keyframes c\x7b")).diagnostics =
        (Stylesheet.ofText "@keyframes\x7b\x7d\na\x7bb\x7d").diagnostics ++
          (Stylesheet.ofText "\x7d @keyframes c\x7b").diagnostics.map (Diagnostic.shift ⟨1, 4⟩) := by
  have hb : Css.Balanced (Css.lex "@keyframes\x7b\x7d\na\x7bb\x7d".toList) :=
    (Css.balanced_lex_iff _ .origin).mpr (by decide +kernel)
  have hl : (Css.lex "@keyframes\x7b\x7d\na\x7bb\x7d".toList).getLast? = some ⟨.closing .curly, ['\x7d']⟩ := by
    decide +kernel
  exact ⟨hb, hl, ofText_append _ _ hb hl⟩

end Timeline.Sheet
