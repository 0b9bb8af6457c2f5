import Timeline.Css.Content

/-! What can be wrong with a stylesheet.

Some faults show in the tokens and blocks alone: a string or address cut short, a bracket
or comment without its end, a closing bracket that closes nothing. `Content.diagnostics`
lists these for a run of component values, in the order in which they end. The other
faults are found by the rules that the values have to follow. -/
namespace Timeline.Css

open Text (Position Span)

inductive Fault where
  | unexpectedToken
  | badString
  | badUrl
  | unmatchedBrace
  | unmatchedBracket
  | unmatchedParenthesis
  | unterminatedComment
  | missingBlock
  | missingKeyframesName
  | missingSelector
  | missingColon
deriving DecidableEq, Repr

namespace Fault

def message : Fault → String
  | unexpectedToken => "unexpected token"
  | badString => "invalid string"
  | badUrl => "invalid URL"
  | unmatchedBrace => "unmatched curly bracket"
  | unmatchedBracket => "unmatched square bracket"
  | unmatchedParenthesis => "unmatched parenthesis"
  | unterminatedComment => "end of comment missing"
  | missingBlock => "missing '\x7b'"
  | missingKeyframesName => "@keyframes missing name"
  | missingSelector => "selector missing"
  | missingColon => "property missing ':'"

/-- Codes are numbered from 0x10001. -/
def code : Fault → Nat
  | unexpectedToken => 0x10001
  | badString => 0x10002
  | badUrl => 0x10003
  | unmatchedBrace => 0x10004
  | unmatchedBracket => 0x10005
  | unmatchedParenthesis => 0x10006
  | unterminatedComment => 0x10007
  | missingBlock => 0x10008
  | missingKeyframesName => 0x10009
  | missingSelector => 0x1000a
  | missingColon => 0x1000b

/-- The fault of a block that nothing closes. -/
def unmatched : Bracket → Fault
  | .round => unmatchedParenthesis
  | .square => unmatchedBracket
  | .curly => unmatchedBrace

end Fault

structure Diagnostic where
  fault : Fault
  span : Span
deriving DecidableEq, Repr

namespace Diagnostic

/-- Lines and columns are counted from one in messages. -/
def message (d : Diagnostic) : String :=
  s!"style sheet parsing error at {d.span.start.line + 1}:{d.span.start.column + 1}" ++
    s!"-{d.span.stop.line + 1}:{d.span.stop.column + 1}: {d.fault.message}"

end Diagnostic

/-- The fault of a token that is no part of a block's frame. -/
def Kind.fault? : Kind → Option Fault
  | .comment false => some .unterminatedComment
  | .badString _ => some .badString
  | .badUrl => some .badUrl
  | .closing _ => some .unexpectedToken
  | _ => none

namespace Content

/-- The faults of tokens and blocks, for a run that begins at `p`. A block that is not
closed is reported at its opening token, after everything inside it. -/
def diagnostics (p : Position) : Content → List Diagnostic
  | nil => []
  | token t rest =>
    let q := p.advance t.text
    (t.kind.fault?.map (⟨·, p, q⟩)).toList ++ rest.diagnostics q
  | block bracket opening body closing rest =>
    let q := p.advance opening.text
    let last := body.after q
    body.diagnostics q ++
      (if closing.isSome then [] else [⟨.unmatched bracket, p, q⟩]) ++
      rest.diagnostics (closing.elim last fun t => last.advance t.text)

theorem diagnostics_append (p : Position) (c d : Content) :
    (c.append d).diagnostics p = c.diagnostics p ++ d.diagnostics (c.after p) := by
  induction c generalizing p with
  | nil => rfl
  | token t rest ih => simp [append, diagnostics, after, ih]
  | block b opening body closing rest _ ih => simp [append, diagnostics, after, ih]

end Content

end Timeline.Css
