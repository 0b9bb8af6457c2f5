import Timeline.Css.Reading

/-! Text that begins somewhere else.

A place counted from the start of a text becomes, where the text begins at another place, a place
that many lines further down, and on the first line that many units further to the right
(`Position.shift`). Nothing else depends on where a text begins: moving over text, looking for
faults and taking a passage apart all commute with it, and so does a reader whose every step
does (`ItemReader.run_shift`). -/
namespace Timeline

open Text (Position Span)

/-! ### Places -/

namespace Text

/-- The place that is at `p` in a text, if the text begins at `start`. -/
def Position.shift (start p : Position) : Position :=
  ⟨start.line + p.line, if p.line = 0 then start.column + p.column else p.column⟩

namespace Position

theorem shift_origin (start : Position) : start.shift origin = start := rfl

theorem shift_nextLine (start p : Position) : start.shift p.nextLine = (start.shift p).nextLine := by
  simp [shift, nextLine, Nat.add_assoc]

theorem shift_column (start p : Position) (n : Nat) :
    start.shift ⟨p.line, p.column + n⟩ = ⟨(start.shift p).line, (start.shift p).column + n⟩ := by
  by_cases h : p.line = 0 <;> simp [shift, h, Nat.add_assoc]

theorem advance_shift (start p : Position) (cs : List Char) :
    (start.shift p).advance cs = start.shift (p.advance cs) := by
  fun_induction advance p cs with
  | case1 => rfl
  | case2 p rest ih => rw [advance, ← shift_nextLine, ih]
  | case3 p c rest hc hn ih => rw [advance.eq_3 _ _ _ hc, if_pos hn, ← shift_nextLine, ih]
  | case4 p c rest hc hn ih => rw [advance.eq_3 _ _ _ hc, if_neg hn, ← shift_column, ih]

end Position

def Span.shift (start : Position) (s : Span) : Span := ⟨start.shift s.start, start.shift s.stop⟩

end Text

namespace Css

def Diagnostic.shift (start : Position) (d : Diagnostic) : Diagnostic := ⟨d.fault, d.span.shift start⟩

/-! ### Content -/

namespace Content

theorem after_shift (start p : Position) (c : Content) : c.after (start.shift p) = start.shift (c.after p) := by
  induction c generalizing p with
  | nil => rfl
  | token t rest ih => rw [after, after, Position.advance_shift, ih]
  | block b opening body closing rest ihb ih =>
    rw [after, after, Position.advance_shift, ihb]
    cases closing with
    | none => exact ih _
    | some t =>
      simp only [Option.elim_some, Position.advance_shift]
      exact ih _

theorem diagnostics_shift (start p : Position) (c : Content) :
    c.diagnostics (start.shift p) = (c.diagnostics p).map (Diagnostic.shift start) := by
  induction c generalizing p with
  | nil => rfl
  | token t rest ih =>
    simp only [diagnostics, Position.advance_shift, ih, List.map_append]
    cases t.kind.fault? <;> rfl
  | block b opening body closing rest ihb ih =>
    simp only [diagnostics, Position.advance_shift, ihb, after_shift, List.map_append]
    cases closing with
    | none => simp only [Option.elim_none, ih]; rfl
    | some t => simp only [Option.elim_some, ih]; rfl

end Content

/-! ### Passages -/

namespace Passage

def shift (start : Position) (p : Passage) : Passage := ⟨start.shift p.start, p.content⟩

variable (start : Position) (p : Passage)

@[simp] theorem start_shift : (p.shift start).start = start.shift p.start := rfl

@[simp] theorem content_shift : (p.shift start).content = p.content := rfl

@[simp] theorem excerpt_shift : (p.shift start).excerpt = p.excerpt := rfl

@[simp] theorem trivia_shift : (p.shift start).trivia = p.trivia.shift start := rfl

@[simp] theorem upTo_shift (marks : List Mark) : (p.shift start).upTo marks = (p.upTo marks).shift start := rfl

@[simp] theorem stop_shift : (p.shift start).stop = start.shift p.stop := Content.after_shift start p.start p.content

@[simp] theorem diagnostics_shift : (p.shift start).diagnostics = p.diagnostics.map (Diagnostic.shift start) :=
  Content.diagnostics_shift start p.start p.content

@[simp] theorem skipTrivia_shift : (p.shift start).skipTrivia = p.skipTrivia.shift start := by
  rw [skipTrivia, trivia_shift, stop_shift]
  rfl

@[simp] theorem past_shift (marks : List Mark) : (p.shift start).past marks = (p.past marks).shift start := by
  rw [past, upTo_shift, stop_shift]
  rfl

theorem shift_mk (first : Position) (c : Content) : shift start ⟨first, c⟩ = ⟨start.shift first, c⟩ := rfl

/-- Behind a text in front of a passage. -/
theorem advance_shift_eq (text : List Char) (c : Content) :
    (⟨(start.shift p.start).advance text, c⟩ : Passage) = shift start ⟨p.start.advance text, c⟩ := by
  rw [Position.advance_shift]
  rfl

def Frame.shift (f : Frame) : Frame :=
  ⟨f.body.shift start, f.unmatched.map (Diagnostic.shift start), f.rest.shift start⟩

@[simp] theorem frame?_shift : (p.shift start).frame? = p.frame?.map (Frame.shift start) := by
  unfold frame?
  rw [content_shift]
  split
  · rename_i opening body closing rest _
    simp only [start_shift, Position.advance_shift, Content.after_shift, Option.map_some]
    cases closing with
    | none => rfl
    | some t =>
      simp only [Option.elim_some]
      rfl
  · rfl

@[simp] theorem skipSemicolon_shift : (p.shift start).skipSemicolon = p.skipSemicolon.shift start := by
  unfold skipSemicolon
  rw [content_shift]
  split
  · exact advance_shift_eq start p _ _
  · rfl

end Passage

/-! ### Readers -/

section Readers

variable {α : Type} (move : Position → α → α) (start : Position)

def Step.shift (s : Step α) : Step α :=
  ⟨s.items.map (move start), s.diagnostics.map (Diagnostic.shift start), s.rest.shift start⟩

def Reading.shift (r : Reading α) : Reading α :=
  ⟨r.items.map (move start), r.diagnostics.map (Diagnostic.shift start)⟩

theorem Step.afterFaults_shift (found : List Diagnostic) (s : Step α) :
    (s.shift move start).afterFaults (found.map (Diagnostic.shift start)) = (s.afterFaults found).shift move start := by
  simp [Step.afterFaults, Step.shift]

/-- A reader whose steps do not depend on where a passage begins reads passages that begin elsewhere alike. -/
theorem ItemReader.run_shift (reader : ItemReader α)
    (h : ∀ p, reader.next (p.shift start) = (reader.next p).map (Step.shift move start)) (p : Passage) :
    reader.run (p.shift start) = (reader.run p).shift move start := by
  fun_induction reader.run p with
  | case1 p hn =>
    rw [reader.run_of_none (by rw [h, hn]; rfl), Passage.diagnostics_shift]
    rfl
  | case2 p s hn _ more ih =>
    rw [reader.run_of_some (s := s.shift move start) (by rw [h, hn]; rfl)]
    show Reading.mk (_ ++ (reader.run (s.rest.shift start)).items)
      (_ ++ (reader.run (s.rest.shift start)).diagnostics) = _
    rw [ih]
    simp only [Step.shift, Reading.shift, List.map_append, more]

end Readers

end Css

end Timeline
