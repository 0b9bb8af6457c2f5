import Timeline.Css.Token

/-! The pieces of names, strings and addresses.

A piece is one character, or an escape that stands for one, or an escaped newline that
stands for nothing. A rule says how the next piece is read; running it takes all pieces
off the front of a text.

`run_append`: the texts of the pieces, and what is left after them, are the text that was
read. -/
namespace Timeline.Css

open Text (isDigit isNewline)

/-! ### Pieces and rules -/

structure Piece where
  /-- As written. -/
  text : List Char
  /-- What it stands for. -/
  value : List Char
deriving DecidableEq, Repr

namespace Piece

/-- A character that stands for itself. -/
def plain (c : Char) : Piece := ⟨[c], [readable c]⟩

def texts (pieces : List Piece) : List Char := pieces.flatMap text

def values (pieces : List Piece) : String := String.ofList (pieces.flatMap value)

end Piece

/-- How the next piece is read, if there is one more. -/
structure PieceRule where
  next : List Char → Option (Piece × List Char)
  next_append : ∀ cs piece rest, next cs = some (piece, rest) →
    piece.text ++ rest = cs ∧ piece.text ≠ []

namespace PieceRule

/-- All pieces up to where the rule finds none, and the rest. -/
def run (rule : PieceRule) (cs : List Char) : List Piece × List Char :=
  match h : rule.next cs with
  | none => ([], cs)
  | some (piece, rest) =>
    have : rest.length < cs.length := by
      obtain ⟨rfl, hne⟩ := rule.next_append _ _ _ h
      have := List.length_pos_iff.mpr hne
      simp only [List.length_append]
      omega
    let (pieces, last) := rule.run rest
    (piece :: pieces, last)
termination_by cs.length

theorem run_append (rule : PieceRule) (cs : List Char) :
    Piece.texts (rule.run cs).1 ++ (rule.run cs).2 = cs := by
  fun_induction run rule cs with
  | case1 => rfl
  | case2 cs piece rest h _ pieces last hrun ih =>
    rw [hrun] at ih
    simp only [Piece.texts, List.flatMap_cons, List.append_assoc] at ih ⊢
    rw [ih]
    exact (rule.next_append _ _ _ h).1

end PieceRule

/-! ### Escapes -/

/-- One blank, if there is one; a carriage return and line feed are one. -/
def splitBlank : List Char → List Char × List Char
  | '\r' :: '\n' :: rest => (['\r', '\n'], rest)
  | c :: rest => if isBlank c then ([c], rest) else ([], c :: rest)
  | [] => ([], [])

theorem splitBlank_append (cs : List Char) : (splitBlank cs).1 ++ (splitBlank cs).2 = cs := by
  fun_cases splitBlank cs <;> rfl

def hexDigitValue (c : Char) : Nat :=
  if isDigit c then c.toNat - '0'.toNat
  else if 'a' ≤ c then c.toNat - 'a'.toNat + 10
  else c.toNat - 'A'.toNat + 10

def hexValue (digits : List Char) : Nat := digits.foldl (fun n c => 16 * n + hexDigitValue c) 0

/-- The character with this number; zero and numbers of no character give the replacement character. -/
def codePoint (n : Nat) : Char := if n ≠ 0 ∧ n.isValidChar then Char.ofNat n else '\ufffd'

/-- An escape, from the character after its backslash: up to six hexadecimal digits and
one blank, or any one character. At the end of the text it is the replacement character. -/
def escape : List Char → Piece × List Char
  | [] => (⟨['\\'], ['\ufffd']⟩, [])
  | c :: cs =>
    if isHexDigit c then
      let digits := ((c :: cs).take 6).takeWhile isHexDigit
      let (blank, rest) := splitBlank ((c :: cs).drop digits.length)
      (⟨'\\' :: (digits ++ blank), [codePoint (hexValue digits)]⟩, rest)
    else (⟨['\\', c], [readable c]⟩, cs)

theorem take_takeWhile_append (p : Char → Bool) (n : Nat) (cs : List Char) :
    (cs.take n).takeWhile p ++ cs.drop ((cs.take n).takeWhile p).length = cs := by
  induction n generalizing cs with
  | zero => simp
  | succ n ih =>
    cases cs with
    | nil => rfl
    | cons c cs => by_cases h : p c <;> simp [h, ih]

theorem escape_append (cs : List Char) :
    (escape cs).1.text ++ (escape cs).2 = '\\' :: cs ∧ (escape cs).1.text ≠ [] := by
  fun_cases escape cs with
  | case1 => exact ⟨rfl, by simp⟩
  | case2 c cs hc digits blank rest hb =>
    have h := splitBlank_append ((c :: cs).drop digits.length)
    rw [hb] at h
    refine ⟨?_, by simp⟩
    simp only [List.cons_append, List.append_assoc, h, List.cons.injEq, true_and]
    exact take_takeWhile_append isHexDigit 6 (c :: cs)
  | case3 c cs => exact ⟨rfl, by simp⟩

/-! ### Names, strings and addresses -/

/-- Name characters and escapes. -/
def nameRule : PieceRule where
  next
    | [] => none
    | c :: cs =>
      if isNameChar c then some (.plain c, cs)
      else if startsEscape (c :: cs) then some (escape cs)
      else none
  next_append cs piece rest h := by
    cases cs with
    | nil => simp at h
    | cons c cs =>
      simp only at h
      split at h
      · simp only [Option.some.injEq, Prod.mk.injEq] at h
        obtain ⟨rfl, rfl⟩ := h
        exact ⟨rfl, by simp [Piece.plain]⟩
      · split at h
        · have hc : c = '\\' := by
            simp only [startsEscape] at *
            split at * <;> simp_all
          have := escape_append cs
          simp_all
        · simp at h

/-- Everything up to the closing quote or the end of the line. -/
def stringRule (quote : Char) : PieceRule where
  next
    | [] => none
    | c :: cs =>
      if c = quote || isNewline c then none
      else if c = '\\' then
        if cs.isEmpty then some (⟨['\\'], []⟩, [])
        else if startsNewline cs then some (⟨'\\' :: (splitBlank cs).1, []⟩, (splitBlank cs).2)
        else some (escape cs)
      else some (.plain c, cs)
  next_append cs piece rest h := by
    cases cs with
    | nil => simp at h
    | cons c cs =>
      simp only at h
      split at h
      · simp at h
      · split at h
        · next hc =>
          subst hc
          split at h
          · simp only [Option.some.injEq, Prod.mk.injEq] at h
            obtain ⟨rfl, rfl⟩ := h
            simp_all
          · split at h
            · simp only [Option.some.injEq, Prod.mk.injEq] at h
              obtain ⟨rfl, rfl⟩ := h
              simp [splitBlank_append]
            · have := escape_append cs
              simp_all
        · simp only [Option.some.injEq, Prod.mk.injEq] at h
          obtain ⟨rfl, rfl⟩ := h
          exact ⟨rfl, by simp [Piece.plain]⟩

/-- Characters that may not stand in an address without quotes: quotes, the opening
parenthesis, and controls other than NUL. -/
def isUrlBreak (c : Char) : Bool :=
  c = '"' || c = '\'' || c = '(' || ('\x01' ≤ c && c ≤ '\x08') || c = '\x0b' ||
    ('\x0e' ≤ c && c ≤ '\x1f') || c = '\x7f'

/-- An address without quotes, up to its end, a blank, or a character it may not hold. -/
def urlRule : PieceRule where
  next
    | [] => none
    | c :: cs =>
      if isBlank c || c = ')' || isUrlBreak c then none
      else if c = '\\' then
        if startsNewline cs then none else some (escape cs)
      else some (.plain c, cs)
  next_append cs piece rest h := by
    cases cs with
    | nil => simp at h
    | cons c cs =>
      simp only at h
      split at h
      · simp at h
      · split at h
        · next hc =>
          subst hc
          split at h
          · simp at h
          · have := escape_append cs
            simp_all
        · simp only [Option.some.injEq, Prod.mk.injEq] at h
          obtain ⟨rfl, rfl⟩ := h
          exact ⟨rfl, by simp [Piece.plain]⟩

/-- What is left of a bad address: everything before the first closing parenthesis that
has no backslash in front of it. -/
def badUrlRule : PieceRule where
  next
    | '\\' :: ')' :: cs => some (⟨['\\', ')'], []⟩, cs)
    | '\\' :: '\\' :: cs => some (⟨['\\', '\\'], []⟩, cs)
    | c :: cs => if c = ')' then none else some (⟨[c], []⟩, cs)
    | [] => none
  next_append cs piece rest h := by
    split at h
    · simp only [Option.some.injEq, Prod.mk.injEq] at h
      obtain ⟨rfl, rfl⟩ := h
      simp
    · simp only [Option.some.injEq, Prod.mk.injEq] at h
      obtain ⟨rfl, rfl⟩ := h
      simp
    · split at h
      · simp at h
      · simp only [Option.some.injEq, Prod.mk.injEq] at h
        obtain ⟨rfl, rfl⟩ := h
        simp
    · simp at h

theorem nameRule_run_ne_nil {cs : List Char} (h : startsIdent cs = true ∨ ∃ c r, cs = c :: r ∧ isNameChar c = true) :
    Piece.texts (nameRule.run cs).1 ≠ [] := by
  have hnext : ∃ piece rest, nameRule.next cs = some (piece, rest) := by
    rcases h with h | ⟨c, r, rfl, h⟩
    · unfold startsIdent at h
      split at h
      · exact ⟨.plain '-', _, by simp [nameRule, isNameChar]; rfl⟩
      · rename_i c rest _
        by_cases hc : isNameChar c
        · exact ⟨.plain c, rest, by simp [nameRule, hc]⟩
        · have : isNameStart c = false := by simp_all [isNameChar]
          rw [this, Bool.false_or] at h
          exact ⟨(escape rest).1, (escape rest).2, by simp [nameRule, hc, h]⟩
      · simp at h
    · exact ⟨.plain c, r, by simp [nameRule, h]⟩
  obtain ⟨piece, rest, hn⟩ := hnext
  have hp := (nameRule.next_append _ _ _ hn).2
  rw [PieceRule.run]
  split
  · simp_all
  · rename_i piece' rest' h'
    rw [hn] at h'
    simp only [Option.some.injEq, Prod.mk.injEq] at h'
    simp [Piece.texts, ← h'.1, hp]

end Timeline.Css
