import Timeline.Css.Diagnostic

/-! Stylesheets as this library sees them.

Keyframes rules are kept in full. Of every other rule only its kind and the text in front
of its block are kept. A stylesheet is always a result: what is wrong with it stands in its
list of diagnostics. -/
namespace Timeline.Sheet

open Text (Position Span)
open Css (Diagnostic)

/-- A property and the text of its value. -/
structure Declaration where
  property : String
  value : String
  span : Span
deriving DecidableEq, Repr

/-- The declarations that hold at some offsets of an animation, and the texts of these offsets. -/
structure KeyframeBlock where
  selectors : List String
  declarations : List Declaration
  span : Span
deriving DecidableEq, Repr

structure KeyframesRule where
  name : String
  /-- What stands between the at-sign and the keyword, hyphens included. -/
  vendor : Option String
  blocks : List KeyframeBlock
  span : Span
deriving DecidableEq, Repr

inductive Rule where
  | keyframes (rule : KeyframesRule)
  | style (selector : String) (span : Span)
  | atRule (name : String) (span : Span)
deriving DecidableEq, Repr

def Rule.keyframes? : Rule → Option KeyframesRule
  | keyframes rule => some rule
  | _ => none

structure Stylesheet where
  rules : List Rule
  diagnostics : List Diagnostic
deriving DecidableEq, Repr

/-- The keyframes rules, in order. -/
def Stylesheet.keyframes (sheet : Stylesheet) : List KeyframesRule := sheet.rules.filterMap Rule.keyframes?

/-! ### Keywords -/

/-- What stands before `keyframes` in an at-keyword, if the keyword ends in that word and
nothing, or some characters between hyphens, stand before it. -/
def vendor? (keyword : String) : Option String :=
  let cs := keyword.toList
  let vendor := cs.take (cs.length - 9)
  let word := cs.drop (cs.length - 9)
  if word.map Char.toLower = "keyframes".toList ∧
      (vendor = [] ∨ 2 < vendor.length ∧ vendor.head? = some '-' ∧ vendor.getLast? = some '-') then
    some (String.ofList vendor)
  else none

end Timeline.Sheet
