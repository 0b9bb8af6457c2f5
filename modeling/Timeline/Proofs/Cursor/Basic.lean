import Timeline.Conversion
import Timeline.Text.Utf8

/-! Reading a stylesheet with a cursor.

The readers of a stylesheet take apart component values that were nested beforehand. A cursor goes over the text itself
and knows the token in front of it, nothing more. Whatever it meets on its way it notes down at once: what is wrong,
which stretches of the text are comments, which texts were cut out, and what is to be logged.

Loops are as they stand, with nothing that bounds them. The answer `none` says that a loop does not end, or that a stretch
of text was asked for that is none. -/
namespace Timeline

open Css (Bracket Diagnostic Fault Kind Mark Token endsBlank isBlank scan)
open Journal (Record)
open Text (Position Span splitAt? utf8)

/-! ### Stretches -/

/-- How many bytes a text has. -/
def bytes (cs : List Char) : Nat := (utf8 cs).length

/-- From one place of a text up to another, counted in bytes. -/
structure Stretch where
  start : Nat
  stop : Nat
deriving DecidableEq, Repr

/-- The text between two places, if they are in order and neither is inside of a character or behind the end. -/
def slice? (text : List Char) (start stop : Nat) : Option (List Char) :=
  if start ≤ stop then do
    let (_, behind) ← splitAt? text start
    let (part, _) ← splitAt? behind (stop - start)
    return part
  else none

/-- A text on the way to being stripped: what is kept of it so far, and where the text that was not looked at begins. -/
structure Stripping where
  kept : List Char
  next : Nat
deriving DecidableEq, Repr

namespace Stripping

/-- Nothing is kept yet. -/
def start : Stripping := ⟨[], 0⟩

/-- Strips one comment. A comment that begins in text that was looked at before is passed over. -/
def step? (raw : List Char) (s : Stripping) (comment : Stretch) : Option Stripping :=
  if comment.start < s.next then some s
  else do
    let part ← slice? raw s.next comment.start
    if endsBlank (s.kept ++ part) then
      let tail ← slice? raw comment.stop (bytes raw)
      return ⟨s.kept ++ part, comment.stop + (bytes tail - bytes (tail.dropWhile isBlank))⟩
    else return ⟨s.kept ++ part, comment.stop⟩

end Stripping

/-- A text without its comments. Blanks behind a comment go, too, where the text that is kept ends in a blank. -/
def stripped? (raw : List Char) (comments : List Stretch) : Option (List Char) := do
  let s ← comments.foldlM (Stripping.step? raw) .start
  let tail ← slice? raw s.next (bytes raw)
  return s.kept ++ tail

/-- A text that was cut out: its stretch of the source, the comments stripped from it, counted from its own start, and what
was left. -/
structure Cut where
  stretch : Stretch
  comments : List Stretch
  text : List Char
deriving DecidableEq, Repr

/-! ### Cursors -/

structure Cursor where
  /-- The text that the cursor has passed, and the text in front of it. -/
  passed : List Char
  ahead : List Char
  place : Position
  /-- The block that the cursor is in. It ends in front of its closing bracket. -/
  inside : Option Bracket
  faults : List Diagnostic
  comments : List Stretch
  cuts : List Cut
  records : List Record

namespace Cursor

/-- In front of a text. -/
def start (source : List Char) : Cursor := ⟨[], source, .origin, none, [], [], [], []⟩

def offset (s : Cursor) : Nat := bytes s.passed

def source (s : Cursor) : List Char := s.passed ++ s.ahead

def report (s : Cursor) (fault : Fault) (span : Span) : Cursor := { s with faults := s.faults ++ [⟨fault, span⟩] }

def log (s : Cursor) (r : Record) : Cursor := { s with records := s.records ++ [r] }

/-- Behind a token. -/
def pass (s : Cursor) (t : Token) (ahead : List Char) : Cursor :=
  { s with passed := s.passed ++ t.text, ahead, place := s.place.advance t.text }

/-- The token in front, and the cursor behind it, if neither the text nor the block ends here. -/
def token? (s : Cursor) : Option (Token × Cursor) :=
  match s.ahead with
  | [] => none
  | c :: cs =>
    if s.inside.any (·.closer = c) then none else some ((scan c cs).1, s.pass (scan c cs).1 (scan c cs).2)

theorem length_token?_lt {s q : Cursor} {t : Token} (h : s.token? = some (t, q)) : q.ahead.length < s.ahead.length := by
  unfold token? at h
  split at h
  · cases h
  · rename_i c cs hs
    split at h
    · cases h
    · obtain ⟨-, rfl⟩ := Prod.mk.inj (Option.some.inj h)
      rw [hs]
      exact Css.length_scan_lt c cs

/-- Notes down that a comment was passed, which began where the cursor `from` was. -/
def noteComment (s : Cursor) (origin : Cursor) (t : Token) : Cursor :=
  let noted := { s with comments := s.comments ++ [⟨origin.offset, origin.offset + bytes t.text⟩] }
  if bytes t.text < 4 ∨ ['*', '/'].isSuffixOf t.text = false then
    noted.report .unterminatedComment ⟨origin.place, s.place⟩
  else noted

/-- Behind the blanks and comments in front. -/
def skipTrivia (s : Cursor) : Cursor :=
  match h : s.token? with
  | none => s
  | some (t, q) =>
    have := length_token?_lt h
    match t.kind with
    | .blank => q.skipTrivia
    | .comment _ =>
      have : (q.noteComment s t).ahead.length < s.ahead.length := by
        unfold noteComment report
        dsimp only
        split <;> assumption
      (q.noteComment s t).skipTrivia
    | _ => s
termination_by s.ahead.length

/-- The next token that is neither a blank nor a comment, and the cursor in front of it. -/
def peek (s : Cursor) : Option Kind × Cursor := (s.skipTrivia.token?.map (·.1.kind), s.skipTrivia)

/-- The same token, and the cursor behind it. -/
def next (s : Cursor) : Option Kind × Cursor :=
  match s.skipTrivia.token? with
  | none => (none, s.skipTrivia)
  | some (t, q) => (some t.kind, q)

/-! ### Blocks -/

/-- Behind the closing bracket of the innermost of some open blocks, and of all others: whatever stands in them. -/
def passBlocks (s : Cursor) (opened : List Bracket) : Cursor :=
  match h : s.ahead with
  | [] => s
  | c :: cs =>
    let t := (scan c cs).1
    let left := if t.kind.closes?.isSome ∧ t.kind.closes? = opened.head? then opened.tail else opened
    have : (scan c cs).2.length < s.ahead.length := by rw [h]; exact Css.length_scan_lt c cs
    if left = [] then s.pass t (scan c cs).2 else (s.pass t (scan c cs).2).passBlocks (t.kind.opens?.toList ++ left)
termination_by s.ahead.length

/-- At the same place, but in another block. -/
def within (s : Cursor) (inside : Option Bracket) : Cursor := { s with inside }

/-- In a block, behind the token that opens it. -/
def enter (s : Cursor) (b : Bracket) : Cursor := s.within (some b)

/-- Out of a block, back into the one around it. The closing bracket should stand in front. -/
def leave (s : Cursor) (b : Bracket) (opening : Span) (outer : Option Bracket) : Cursor :=
  let behind := (s.passBlocks [b]).within outer
  if s.ahead.head? = some b.closer then behind else behind.report (.unmatched b) opening

/-- From a state to an answer, by turns that may never end. The next turn is to `run` it again. -/
abbrev Loop (σ α : Type) := ReaderT σ Option α

@[simp]
theorem run_eq {σ α : Type} (f : Loop σ α) (x : σ) : f.run x = f x := rfl

mutual

/-- Passes one component value. There is none where the text or the block ends. -/
def skipValue : Loop Cursor (Option Unit × Cursor) := fun s =>
  let s := s.skipTrivia
  match s.token? with
  | none => some (none, s)
  | some (t, q) =>
    match t.kind.opens? with
    | some b => do
      let inner ← drain.run (q.enter b)
      let inner ← drain.run inner
      return (some (), inner.leave b ⟨s.place, q.place⟩ s.inside)
    | none =>
      match t.kind.fault? with
      | some fault => some (some (), q.report fault ⟨s.place, q.place⟩)
      | none => some (some (), q)
partial_fixpoint

/-- Passes all component values that are left. -/
def drain : Loop Cursor Cursor := fun s => do
  match ← skipValue.run s with
  | (none, s) => return s
  | (some (), s) => drain.run s
partial_fixpoint

end

/-- Reads what stands in a block, from behind the token that opens it. What is not read is passed. -/
def nested {α : Type} (s : Cursor) (b : Bracket) (opening : Span) (read : Cursor → Option (α × Cursor)) :
    Option (α × Cursor) := do
  let (x, inner) ← read (s.enter b)
  let inner ← inner.drain
  return (x, inner.leave b opening s.inside)

/-- Reads what stands in a curly block, if one stands in front. -/
def curlyBlock {α : Type} (s : Cursor) (read : Cursor → Option (α × Cursor)) : Option (Option α × Cursor) :=
  let s := s.skipTrivia
  match s.token? with
  | some (⟨.opening .curly, _⟩, q) => (q.nested .curly ⟨s.place, q.place⟩ read).map (Prod.map some id)
  | _ => some (none, s)

/-- Nothing is read. -/
def unread (s : Cursor) : Option (Unit × Cursor) := some ((), s)

/-! ### Reading up to a mark -/

/-- Whether a token in front is one of some marks. -/
def stopsAt (marks : List Mark) : Kind → Bool
  | .semicolon => marks.contains .semicolon
  | .opening .curly => marks.contains .curlyBlock
  | .closing _ => marks.contains .closer
  | _ => false

variable (marks : List Mark)

/-- Passes component values up to one of some marks. -/
def skipUpTo : Loop Cursor Cursor := fun s =>
  match s.peek with
  | (none, s) => some s
  | (some k, s) =>
    if stopsAt marks k then some s
    else do
      let (_, s) ← s.skipValue
      skipUpTo.run s
partial_fixpoint

/-- The same, with the place behind the last component value that was passed. -/
def passUpTo : Loop (Nat × Cursor) (Nat × Cursor) := fun (stop, s) =>
  match s.peek with
  | (none, s) => some (stop, s)
  | (some k, s) =>
    if stopsAt marks k then some (stop, s)
    else do
      let (_, s) ← s.skipValue
      passUpTo.run (s.offset, s)
partial_fixpoint

/-- The text up to one of some marks, without its comments and trimmed. -/
def cutUpTo (s : Cursor) : Option (List Char × Cursor) := do
  let s := s.skipTrivia
  let (stop, q) ← passUpTo marks (s.offset, s)
  let raw ← slice? q.source s.offset stop
  let noted := (q.comments.drop s.comments.length).filter fun c =>
    s.offset ≤ c.start ∧ c.stop ≤ s.offset + bytes raw
  let comments := noted.map fun c => ⟨c.start - s.offset, c.stop - s.offset⟩
  let text ← stripped? raw comments
  return (Text.trim text, { q with cuts := q.cuts ++ [⟨⟨s.offset, stop⟩, comments, text⟩] })

/-- Behind a semicolon, if one stands in front. -/
def passSemicolon (s : Cursor) : Cursor :=
  match s.peek with
  | (some .semicolon, s) => s.next.2
  | (_, s) => s

variable {α : Type} (item : Cursor → Option (Option α × Cursor))

/-- Items, one after the other, for as long as there is one more. -/
def items : Loop Cursor (List α × Cursor) := fun s => do
  match ← item s with
  | (none, s) => return ([], s)
  | (some x, s) =>
    let (more, s) ← items.run s
    return (x :: more, s)
partial_fixpoint

end Cursor

end Timeline
