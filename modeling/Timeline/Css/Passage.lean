import Timeline.Css.Diagnostic
import Timeline.Css.Excerpt

/-! Component values at their place in a text.

A passage is taken apart from the front: blanks and comments, or everything before a
mark. The parts lie one behind the other (`trivia_append_skipTrivia`, `upTo_append_past`), so
no value is read twice or left out. -/
namespace Timeline.Css

open Text (Position Span)

/-! ### Marks -/

/-- What a run of values may be read up to. -/
inductive Mark where
  | semicolon
  | curlyBlock
  | closer
deriving DecidableEq, Repr

def Token.mark? (t : Token) : Option Mark :=
  match t.kind with
  | .semicolon => some .semicolon
  | .closing _ => some .closer
  | _ => none

def Bracket.mark? : Bracket → Option Mark
  | .curly => some .curlyBlock
  | _ => none

/-- Whether a mark, if there is one, is among those looked for. -/
def Mark.found (marks : List Mark) (mark : Option Mark) : Bool := mark.any marks.contains

namespace Content

/-- The blanks and comments in front. -/
def trivia : Content → Content
  | token t rest => if t.kind.isTrivia then token t rest.trivia else nil
  | _ => nil

/-- What comes after the blanks and comments in front. -/
def skipTrivia : Content → Content
  | token t rest => if t.kind.isTrivia then rest.skipTrivia else token t rest
  | c => c

/-- The values before the first of the marks. -/
def upTo (marks : List Mark) : Content → Content
  | nil => nil
  | token t rest => if Mark.found marks t.mark? then nil else token t (rest.upTo marks)
  | block b opening body closing rest =>
    if Mark.found marks b.mark? then nil else block b opening body closing (rest.upTo marks)

/-- The values from the first of the marks on. -/
def past (marks : List Mark) : Content → Content
  | nil => nil
  | token t rest => if Mark.found marks t.mark? then token t rest else rest.past marks
  | block b opening body closing rest =>
    if Mark.found marks b.mark? then block b opening body closing rest else rest.past marks

theorem trivia_append_skipTrivia (c : Content) : c.trivia.append c.skipTrivia = c := by
  induction c with
  | nil => rfl
  | token t rest ih => by_cases h : t.kind.isTrivia <;> simp [trivia, skipTrivia, append, h, ih]
  | block => rfl

theorem upTo_append_past (marks : List Mark) (c : Content) : (c.upTo marks).append (c.past marks) = c := by
  induction c with
  | nil => rfl
  | token t rest ih => by_cases h : Mark.found marks t.mark? <;> simp [upTo, past, append, h, ih]
  | block b opening body closing rest _ ih =>
    by_cases h : Mark.found marks b.mark? <;> simp [upTo, past, append, h, ih]

theorem size_skipTrivia_le (c : Content) : c.skipTrivia.size ≤ c.size := by
  induction c with
  | nil => exact Nat.le_refl _
  | token t rest ih =>
    by_cases h : t.kind.isTrivia <;> simp only [skipTrivia, h, size, if_true, Bool.false_eq_true, if_false] <;> omega
  | block => exact Nat.le_refl _

theorem size_past_le (marks : List Mark) (c : Content) : (c.past marks).size ≤ c.size := by
  induction c with
  | nil => exact Nat.le_refl _
  | token t rest ih =>
    by_cases h : Mark.found marks t.mark? <;>
      simp only [past, h, size, if_true, Bool.false_eq_true, if_false] <;> omega
  | block b opening body closing rest _ ih =>
    by_cases h : Mark.found marks b.mark? <;>
      simp only [past, h, size, if_true, Bool.false_eq_true, if_false] <;> omega

/-- What is read up to marks begins with one of them, or is empty. -/
theorem past_cases (marks : List Mark) (c : Content) :
    c.past marks = nil ∨
      (∃ t rest, c.past marks = token t rest ∧ Mark.found marks t.mark? = true) ∨
      ∃ b opening body closing rest, c.past marks = block b opening body closing rest ∧
        Mark.found marks b.mark? = true := by
  induction c with
  | nil => exact .inl rfl
  | token t rest ih =>
    by_cases h : Mark.found marks t.mark?
    · exact .inr (.inl ⟨t, rest, by simp [past, h], h⟩)
    · simpa [past, h] using ih
  | block b opening body closing rest _ ih =>
    by_cases h : Mark.found marks b.mark?
    · exact .inr (.inr ⟨b, opening, body, closing, rest, by simp [past, h], h⟩)
    · simpa [past, h] using ih

end Content

/-! ### Passages -/

structure Passage where
  start : Position
  content : Content
deriving DecidableEq, Repr

namespace Passage

/-- A whole text. -/
def ofText (cs : List Char) : Passage := ⟨.origin, .ofText cs⟩

def stop (p : Passage) : Position := p.content.after p.start

def diagnostics (p : Passage) : List Diagnostic := p.content.diagnostics p.start

def excerpt (p : Passage) : List Char := p.content.excerpt

/-- The blanks and comments in front. -/
def trivia (p : Passage) : Passage := ⟨p.start, p.content.trivia⟩

/-- The passage after the blanks and comments in front. -/
def skipTrivia (p : Passage) : Passage := ⟨p.trivia.stop, p.content.skipTrivia⟩

/-- The part before the first of the marks. -/
def upTo (marks : List Mark) (p : Passage) : Passage := ⟨p.start, p.content.upTo marks⟩

/-- The part from the first of the marks on. -/
def past (marks : List Mark) (p : Passage) : Passage := ⟨(p.upTo marks).stop, p.content.past marks⟩

theorem diagnostics_skipTrivia (p : Passage) :
    p.trivia.diagnostics ++ p.skipTrivia.diagnostics = p.diagnostics := by
  simp only [diagnostics, trivia, skipTrivia, stop, ← Content.diagnostics_append,
    Content.trivia_append_skipTrivia]

theorem diagnostics_past (marks : List Mark) (p : Passage) :
    (p.upTo marks).diagnostics ++ (p.past marks).diagnostics = p.diagnostics := by
  simp only [diagnostics, upTo, past, stop, ← Content.diagnostics_append, Content.upTo_append_past]

/-! ### What stands in front -/

/-- A block in curly brackets: what it holds, its fault if it is not closed, and what follows it. -/
structure Frame where
  body : Passage
  unmatched : List Diagnostic
  rest : Passage

/-- The curly block at the very front. -/
def frame? (p : Passage) : Option Frame :=
  match p.content with
  | .block .curly opening body closing rest =>
    let q := p.start.advance opening.text
    let last := body.after q
    some
      { body := ⟨q, body⟩
        unmatched := if closing.isSome then [] else [⟨.unmatchedBrace, p.start, q⟩]
        rest := ⟨closing.elim last fun t => last.advance t.text, rest⟩ }
  | _ => none

/-- The passage after the semicolon at the very front, if there is one. -/
def skipSemicolon (p : Passage) : Passage :=
  match p.content with
  | .token ⟨.semicolon, text⟩ rest => ⟨p.start.advance text, rest⟩
  | _ => p

theorem size_frame?_rest {p : Passage} {f : Frame} (h : p.frame? = some f) :
    f.rest.content.size < p.content.size := by
  unfold frame? at h
  split at h
  · rename_i hc
    rw [hc]
    obtain rfl := Option.some.inj h
    exact Nat.lt_succ_self _
  · simp at h

theorem size_skipSemicolon_le (p : Passage) : p.skipSemicolon.content.size ≤ p.content.size := by
  unfold skipSemicolon
  split
  · rename_i hc
    rw [hc]
    exact Nat.le_succ _
  · exact Nat.le_refl _

end Passage

end Timeline.Css
