import Timeline.Proofs.Css.Shift
import Timeline.Sheet.Reader

/-! Stylesheets that begin somewhere else: no reader depends on where its passage begins. The items
and faults that it finds are the same, each as much further on as the passage is (`run_shift`). -/
namespace Timeline.Sheet

open Css (Diagnostic ItemReader Passage Step)
open Text (Position)

/-! ### Items at their places -/

def Declaration.shift (start : Position) (d : Declaration) : Declaration := { d with span := d.span.shift start }

def KeyframeBlock.shift (start : Position) (b : KeyframeBlock) : KeyframeBlock :=
  { b with declarations := b.declarations.map (Declaration.shift start), span := b.span.shift start }

def KeyframesRule.shift (start : Position) (r : KeyframesRule) : KeyframesRule :=
  { r with blocks := r.blocks.map (KeyframeBlock.shift start), span := r.span.shift start }

def Rule.shift (start : Position) : Rule → Rule
  | keyframes rule => .keyframes (rule.shift start)
  | style selector span => .style selector (span.shift start)
  | atRule name span => .atRule name (span.shift start)

variable (start : Position)

/-! ### Declarations -/

namespace Declaration

theorem afterProperty_shift (first : Position) (property : String) (p : Passage) :
    afterProperty (start.shift first) property (p.shift start) =
      (afterProperty first property p).shift shift start := by
  unfold afterProperty
  simp only [Passage.skipTrivia_shift, Passage.content_shift]
  split
  · simp [Step.shift, shift, Text.Span.shift, Passage.advance_shift_eq]
  · simp [Step.shift, Diagnostic.shift, Text.Span.shift]

theorem next_shift (p : Passage) : next (p.shift start) = (next p).map (Step.shift shift start) := by
  unfold next
  simp only [Passage.skipTrivia_shift, Passage.content_shift]
  split
  · rfl
  · simp [Step.shift, Passage.advance_shift_eq]
  · simp [Passage.advance_shift_eq, afterProperty_shift, Step.afterFaults_shift]
  · simp [Step.shift, Diagnostic.shift, Text.Span.shift]

theorem run_shift (p : Passage) : reader.run (p.shift start) = (reader.run p).shift shift start :=
  reader.run_shift shift start (next_shift start) p

end Declaration

/-! ### Keyframe blocks -/

namespace KeyframeBlock

theorem next_shift (p : Passage) : next (p.shift start) = (next p).map (Step.shift shift start) := by
  unfold next
  simp only [Passage.skipTrivia_shift, Passage.content_shift, Passage.past_shift, Passage.frame?_shift]
  split
  · rfl
  by_cases he : (p.skipTrivia.upTo [.curlyBlock, .semicolon]).excerpt = [] <;>
    cases (p.skipTrivia.past [.curlyBlock, .semicolon]).frame? <;>
    simp [he, Step.shift, shift, Diagnostic.shift, Text.Span.shift, Passage.Frame.shift, Declaration.run_shift,
      Css.Reading.shift]

theorem run_shift (p : Passage) : reader.run (p.shift start) = (reader.run p).shift shift start :=
  reader.run_shift shift start (next_shift start) p

end KeyframeBlock

/-! ### Rules -/

namespace Rule

theorem nameInFront_shift (first : Position) (p : Passage) :
    nameInFront (start.shift first) (p.shift start) =
      ((nameInFront first p).1, (nameInFront first p).2.1.map (Diagnostic.shift start),
        (nameInFront first p).2.2.shift start) := by
  unfold nameInFront
  simp only [Passage.content_shift]
  split <;> simp [Diagnostic.shift, Text.Span.shift, Passage.advance_shift_eq]

theorem afterKeyframes_shift (first : Position) (vendor : Option String) (p : Passage) :
    afterKeyframes (start.shift first) vendor (p.shift start) = (afterKeyframes first vendor p).shift shift start := by
  unfold afterKeyframes
  simp only [Passage.skipTrivia_shift, nameInFront_shift]
  generalize nameInFront first p.skipTrivia = named
  obtain ⟨name, nameless, trailing⟩ := named
  simp only [Passage.past_shift, Passage.frame?_shift]
  by_cases he : (trailing.upTo [.curlyBlock, .semicolon, .closer]).excerpt = [] <;>
    cases (trailing.past [.curlyBlock, .semicolon, .closer]).frame? <;>
    simp [he, Step.shift, shift, KeyframesRule.shift, Diagnostic.shift, Text.Span.shift, Passage.Frame.shift,
      KeyframeBlock.run_shift, Css.Reading.shift]

theorem afterAtKeyword_shift (first : Position) (name : String) (p : Passage) :
    afterAtKeyword (start.shift first) name (p.shift start) = (afterAtKeyword first name p).shift shift start := by
  unfold afterAtKeyword
  simp only [Passage.past_shift, Passage.frame?_shift]
  cases (p.past [.semicolon, .curlyBlock, .closer]).frame? <;>
    simp [Step.shift, shift, Text.Span.shift, Passage.Frame.shift]

theorem styleRule_shift (q : Passage) : styleRule (q.shift start) = (styleRule q).shift shift start := by
  unfold styleRule
  simp only [Passage.past_shift, Passage.frame?_shift]
  by_cases he : (q.upTo [.curlyBlock, .closer]).excerpt = [] <;>
    cases (q.past [.curlyBlock, .closer]).frame? <;>
    simp [he, Step.shift, shift, Diagnostic.shift, Text.Span.shift, Passage.Frame.shift]

theorem next_shift (p : Passage) : next (p.shift start) = (next p).map (Step.shift shift start) := by
  unfold next
  simp only [Passage.skipTrivia_shift, Passage.content_shift]
  split
  · rfl
  · rw [Passage.start_shift, Position.advance_shift]
    simp [Step.shift, Diagnostic.shift, Text.Span.shift, Passage.shift_mk]
  · rename_i name _ _ _
    cases hv : vendor? name with
    | none => simp [Passage.advance_shift_eq, afterAtKeyword_shift, Step.afterFaults_shift]
    | some vendor => simp [Passage.advance_shift_eq, afterKeyframes_shift, Step.afterFaults_shift]
  · simp [styleRule_shift, Step.afterFaults_shift]

/-- **Rules are read alike wherever they begin.** -/
theorem run_shift (p : Passage) : reader.run (p.shift start) = (reader.run p).shift shift start :=
  reader.run_shift shift start (next_shift start) p

end Rule

end Timeline.Sheet
