import Mathlib.Tactic.SplitIfs
import Timeline.Text.Quoted

/-! Quoted texts are read back.

The reader knows what the escapes of a quoted text stand for, and nothing of when they are used. It reads every quoted
text as the text that was quoted (`unquoted?_quoted`), so that a message with a quoted text in it leaves no doubt about
that text. -/
namespace Timeline.Text

/-- Where a reader of quoted text stands. -/
inductive Quoting where
  /-- Between two characters. -/
  | between
  /-- Behind a backslash. -/
  | marked
  /-- Among the digits of a character's number, with the value of those that were read. -/
  | numbered (value : Nat)

/-- What a character stands for behind a backslash. -/
def marked? : Char → Option Char
  | '0' => some '\x00'
  | 't' => some '\t'
  | 'r' => some '\r'
  | 'n' => some '\n'
  | '\\' => some '\\'
  | '"' => some '"'
  | '\'' => some '\''
  | _ => none

def hexDigitValue? (c : Char) : Option Nat := "0123456789abcdef".toList.idxOf? c

/-- What the rest of a quoted text stands for, up to the mark at its end. -/
def restOfQuoted? : Quoting → List Char → Option (List Char)
  | _, [] => none
  | .between, c :: cs =>
    if c = '"' then if cs.isEmpty then some [] else none
    else if c = '\\' then restOfQuoted? .marked cs
    else (restOfQuoted? .between cs).map (c :: ·)
  | .marked, 'u' :: '\x7b' :: cs => restOfQuoted? (.numbered 0) cs
  | .marked, mark :: cs =>
    match marked? mark with
    | some c => (restOfQuoted? .between cs).map (c :: ·)
    | none => none
  | .numbered value, c :: cs =>
    if c = '\x7d' then
      if value.isValidChar then (restOfQuoted? .between cs).map (Char.ofNat value :: ·) else none
    else
      match hexDigitValue? c with
      | some digit => restOfQuoted? (.numbered (16 * value + digit)) cs
      | none => none

/-- The text that a quoted text stands for. -/
def unquoted? (text : String) : Option String :=
  match text.toList with
  | '"' :: cs => (restOfQuoted? .between cs).map String.ofList
  | _ => none

/-! ### Numbers -/

theorem restOfQuoted?_digitChar (value : Nat) {digit : Nat} (h : digit < 16) (cs : List Char) :
    restOfQuoted? (.numbered value) (Nat.digitChar digit :: cs) = restOfQuoted? (.numbered (16 * value + digit)) cs := by
  have hdigit : ∀ n < 16, Nat.digitChar n ≠ '\x7d' ∧ hexDigitValue? (Nat.digitChar n) = some n := by decide
  obtain ⟨hne, hvalue⟩ := hdigit digit h
  rw [restOfQuoted?, if_neg hne, hvalue]

/-- The digits of a number are read as the number. -/
theorem restOfQuoted?_toDigits (n : Nat) (cs : List Char) :
    restOfQuoted? (.numbered 0) (Nat.toDigits 16 n ++ cs) = restOfQuoted? (.numbered n) cs := by
  induction n using Nat.strongRecOn generalizing cs with
  | ind n ih =>
    rw [Nat.toDigits_eq_if (by decide)]
    split
    · rename_i hn
      rw [List.singleton_append, restOfQuoted?_digitChar 0 hn, Nat.mul_zero, Nat.zero_add]
    · rename_i hn
      rw [List.append_assoc, ih (n / 16) (by omega), List.singleton_append,
        restOfQuoted?_digitChar _ (Nat.mod_lt n (by decide)), Nat.div_add_mod]

/-! ### Characters -/

theorem restOfQuoted?_numbered (c : Char) (cs : List Char) :
    restOfQuoted? .between (numbered c ++ cs) = (restOfQuoted? .between cs).map (c :: ·) := by
  show restOfQuoted? (.numbered 0) (Nat.toDigits 16 c.toNat ++ ['\x7d'] ++ cs) = _
  have hvalid : c.toNat.isValidChar := c.valid
  rw [List.append_assoc, restOfQuoted?_toDigits, List.singleton_append, restOfQuoted?, if_pos rfl, if_pos hvalid,
    Char.ofNat_toNat]

/-- In each of its forms a character is read as itself. -/
theorem restOfQuoted?_shown (c : Char) (cs : List Char) :
    restOfQuoted? .between (shown c ++ cs) = (restOfQuoted? .between cs).map (c :: ·) := by
  unfold shown
  split_ifs with hnul ht hr hn hbackslash hquote hnumber
  · rw [hnul]; rfl
  · rw [ht]; rfl
  · rw [hr]; rfl
  · rw [hn]; rfl
  · rw [hbackslash]; rfl
  · rw [hquote]; rfl
  · exact restOfQuoted?_numbered c cs
  · rw [List.singleton_append, restOfQuoted?, if_neg hquote, if_neg hbackslash]

theorem restOfQuoted?_flatMap_shown (cs : List Char) :
    restOfQuoted? .between (cs.flatMap shown ++ ['"']) = some cs := by
  induction cs with
  | nil => rfl
  | cons c cs ih => rw [List.flatMap_cons, List.append_assoc, restOfQuoted?_shown, ih, Option.map_some]

/-- A quoted text stands for the text that was quoted. -/
theorem unquoted?_quoted (text : String) : unquoted? (quoted text) = some text := by
  rw [unquoted?, quoted, String.toList_ofList]
  show (restOfQuoted? .between (text.toList.flatMap shown ++ ['"'])).map String.ofList = some text
  rw [restOfQuoted?_flatMap_shown, Option.map_some, String.ofList_toList]

end Timeline.Text
