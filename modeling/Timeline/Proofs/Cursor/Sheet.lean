import Timeline.Proofs.Cursor.Basic

/-! Reading rules, blocks and declarations with a cursor.

Each reader answers its item, or that there is none. After a fault it goes on by itself, so that it may pass a good deal
of text in front of its item, or with no item at all. A keyframes rule is logged as soon as it is read. -/
namespace Timeline.Cursor

open Css (Kind)
open Sheet (Declaration KeyframeBlock KeyframesRule Rule vendor?)
open Text (Position Span)

/-- The next declaration. What is no declaration is passed, up to a semicolon each time. -/
def declaration : Loop Cursor (Option Declaration × Cursor) := fun s =>
  match s.peek with
  | (none, s) => some (none, s)
  | (some .semicolon, s) => declaration.run s.next.2
  | (some (.ident property), s) =>
    let start := s.place
    match s.next.2.peek with
    | (some .colon, s) => do
      let (value, s) ← s.next.2.cutUpTo [.semicolon]
      return (some ⟨property, String.ofList value, ⟨start, s.place⟩⟩, s.passSemicolon)
    | (_, s) => do
      let s ← (s.report .missingColon ⟨start, s.place⟩).skipUpTo [.semicolon]
      declaration.run s
  | (some _, s) => do
    let q ← s.skipUpTo [.semicolon]
    declaration.run (q.report .unexpectedToken ⟨s.place, q.place⟩)
partial_fixpoint

/-- The items in a curly block. Where there is no block, that is reported, and a semicolon is passed. -/
def blockItems {α : Type} (item : Cursor → Option (Option α × Cursor)) (missing : Position → Span) (s : Cursor) :
    Option (List α × Cursor) := do
  match ← s.curlyBlock (items item) with
  | (some xs, s) => return (xs, s)
  | (none, s) => return ([], (s.report .missingBlock (missing s.place)).passSemicolon)

/-- The next block, in front of which there are selectors. -/
def keyframeBlock (s : Cursor) : Option (Option KeyframeBlock × Cursor) :=
  match s.peek with
  | (none, s) => some (none, s)
  | (some _, s) => do
    let start := s.place
    let (selectors, s) ← s.cutUpTo [.curlyBlock, .semicolon]
    let s := if selectors = [] then s.report .missingSelector ⟨start, s.place⟩ else s
    let (declarations, s) ← s.blockItems declaration fun place => ⟨start, place⟩
    return (some ⟨KeyframeBlock.selectorsOf selectors, declarations, ⟨start, s.place⟩⟩, s)

/-- The name of a keyframes rule that begins at `start`. -/
def name (start : Position) (s : Cursor) : String × Cursor :=
  match s.peek with
  | (some (.ident name), s) => (name, s.next.2)
  | (some (.string name), s) => (name, s.next.2)
  | (_, s) => ("", s.report .missingKeyframesName ⟨start, s.place⟩)

/-- A keyframes rule, whose at-keyword stands in front. -/
def keyframesRule (s : Cursor) : Option (Option KeyframesRule × Cursor) :=
  let start := s.place
  match s.next with
  | (some (.atKeyword keyword), s) => do
    let vendor := (vendor? keyword).filter (· ≠ "")
    let (name, s) := s.name start
    let trailing := s.place
    let (extra, s) ← s.cutUpTo [.curlyBlock, .semicolon, .closer]
    let s := if extra ≠ [] then s.report .unexpectedToken ⟨trailing, s.place⟩ else s
    let (blocks, s) ← s.blockItems keyframeBlock fun place => ⟨place, place⟩
    let rule : KeyframesRule := ⟨name, vendor, blocks, ⟨start, s.place⟩⟩
    return (some rule, s.log rule.record)
  | (_, s) => some (none, s)

/-- Behind the semicolon or curly block that a rule ends with, if one stands in front. -/
def passEnd (s : Cursor) : Option Cursor :=
  match s.peek with
  | (some .semicolon, s) => some s.next.2
  | (some (.opening .curly), s) => (s.curlyBlock unread).map Prod.snd
  | (_, s) => some s

/-- Any other rule. -/
def otherRule (s : Cursor) : Option (Option Rule × Cursor) :=
  let start := s.place
  match s.peek with
  | (none, s) => some (none, s)
  | (some (.atKeyword name), s) => do
    let s ← s.next.2.skipUpTo [.semicolon, .curlyBlock, .closer]
    let s ← s.passEnd
    return (some (.atRule name ⟨start, s.place⟩), s)
  | (some _, s) => do
    let (selector, s) ← s.cutUpTo [.curlyBlock, .closer]
    let (block, s) ← s.curlyBlock unread
    let s :=
      if block = none then s.report .missingBlock ⟨start, s.place⟩
      else if selector = [] then s.report .missingSelector ⟨start, s.place⟩
      else s
    return (some (.style (String.ofList selector) ⟨start, s.place⟩), s)

/-- The rule in front. -/
def ruleInFront (s : Cursor) : Option (Option Rule × Cursor) :=
  match s.peek with
  | (none, s) => some (none, s)
  | (some (.atKeyword keyword), s) =>
    if (vendor? keyword).isSome then do
      let (rule, s) ← s.keyframesRule
      return (rule.map .keyframes, s)
    else s.otherRule
  | (some _, s) => s.otherRule

/-- Passes closing brackets that close nothing. -/
def skipClosers : Loop Cursor Cursor := fun s =>
  match s.peek with
  | (some (.closing _), s) => do
    let (_, s) ← s.skipValue
    skipClosers.run s
  | (_, s) => some s
partial_fixpoint

/-- The next rule. -/
def rule (s : Cursor) : Option (Option Rule × Cursor) := do
  let s ← s.skipClosers
  s.ruleInFront

/-- The rules of a stylesheet, and the cursor behind all of its text. -/
def readAll (source : List Char) : Option (List Rule × Cursor) := do
  let (rules, s) ← items rule (start source)
  let s ← s.drain
  return (rules, s)

end Timeline.Cursor
