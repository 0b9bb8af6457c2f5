/-! Places in a text.

A place is the number of lines above it and the number of UTF-16 units before it on
its line, both counted from zero. A line ends at a line feed, a form feed or a carriage
return; a carriage return followed by a line feed ends one line. Neither number has an upper
bound here: texts are taken to be shorter than 2^32 lines and 2^32 UTF-16 units, so that
both fit into 32 bits.

`advance_append`: a place moves over a text piece by piece, as long as no piece ends in
the middle of a carriage return and line feed. -/
namespace Timeline.Text

/-- A line feed, form feed or carriage return. -/
def isNewline (c : Char) : Bool := c = '\n' || c = '\x0c' || c = '\r'

/-- How many UTF-16 units a character takes. -/
def units (c : Char) : Nat := if c.toNat < 0x10000 then 1 else 2

structure Position where
  line : Nat
  column : Nat
deriving DecidableEq, Inhabited, Repr

namespace Position

def origin : Position := ⟨0, 0⟩

/-- The start of the line below. -/
def nextLine (p : Position) : Position := ⟨p.line + 1, 0⟩

/-- The place after a text that begins at `p`. -/
def advance (p : Position) : List Char → Position
  | [] => p
  | '\r' :: '\n' :: rest => p.nextLine.advance rest
  | c :: rest =>
    if isNewline c then p.nextLine.advance rest
    else advance ⟨p.line, p.column + units c⟩ rest

theorem advance_cons (p : Position) (c : Char) (rest : List Char)
    (h : c = '\r' → rest.head? ≠ some '\n') :
    p.advance (c :: rest) =
      (if isNewline c then p.nextLine else ⟨p.line, p.column + units c⟩ : Position).advance rest := by
  rw [advance]
  · split <;> rfl
  · rintro tail rfl rfl
    simp at h

theorem advance_append (p : Position) (a b : List Char)
    (h : a.getLast? = some '\r' → b.head? ≠ some '\n') :
    p.advance (a ++ b) = (p.advance a).advance b := by
  fun_induction advance p a with
  | case1 => rfl
  | case2 p rest ih =>
    rw [List.cons_append, List.cons_append, advance]
    refine ih fun hl => h ?_
    cases rest <;> simp_all
  | case3 p c rest hc hn ih =>
    rw [List.cons_append, advance_cons, if_pos hn]
    · refine ih fun hl => h ?_
      cases rest <;> simp_all
    · rintro rfl
      cases rest with
      | nil => simpa using h
      | cons d t => simpa using fun hd => hc t rfl (by rw [hd])
  | case4 p c rest hc hn ih =>
    rw [List.cons_append, advance_cons, if_neg hn]
    · refine ih fun hl => h ?_
      cases rest <;> simp_all
    · rintro rfl
      exact absurd rfl hn

/-- Earlier lines first, then earlier columns. -/
def le (p q : Position) : Bool := p.line < q.line || (p.line == q.line && p.column ≤ q.column)

end Position

/-! ### Stretches of text -/

/-- From one place up to another. -/
structure Span where
  start : Position
  stop : Position
deriving DecidableEq, Inhabited, Repr

end Timeline.Text
