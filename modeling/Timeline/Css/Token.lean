import Timeline.Text.Position
import Timeline.Text.Digits

/-! The words of a stylesheet.

A token keeps its text as written, so that the texts of a stylesheet's tokens, put one
after the other, are the stylesheet. Its kind holds what the word means: names and
strings there have their escapes resolved. -/
namespace Timeline.Css

open Text (isDigit startsDigit)

inductive Bracket where
  | round
  | square
  | curly
deriving DecidableEq, Repr

namespace Bracket

def opener : Bracket → Char
  | round => '('
  | square => '['
  | curly => '\x7b'

def closer : Bracket → Char
  | round => ')'
  | square => ']'
  | curly => '\x7d'

end Bracket

inductive Kind where
  | blank
  /-- A comment, and whether its end mark was found. -/
  | comment (closed : Bool)
  | ident (name : String)
  /-- A name after an at-sign. -/
  | atKeyword (name : String)
  /-- A name after a number sign, and whether it could stand as an identifier. -/
  | hash (name : String) (isIdent : Bool)
  | string (value : String)
  /-- A string cut short by the end of its line. -/
  | badString (value : String)
  | url (value : String)
  | badUrl
  | number
  | percentage
  | dimension (unit : String)
  | colon
  | semicolon
  | comma
  /-- An attribute comparison: the character before its equals sign. -/
  | comparison (mark : Char)
  /-- The marks that hide a stylesheet from old readers of markup. -/
  | markupOpen
  | markupClose
  | delim (char : Char)
  /-- A name directly before an opening parenthesis. -/
  | function (name : String)
  | opening (bracket : Bracket)
  | closing (bracket : Bracket)
deriving DecidableEq, Repr

structure Token where
  kind : Kind
  text : List Char
deriving DecidableEq, Repr

namespace Kind

/-- Blanks and comments, which may stand between any two other tokens. -/
def isTrivia : Kind → Bool
  | blank | comment _ => true
  | _ => false

def isComment : Kind → Bool
  | comment _ => true
  | _ => false

/-- The bracket that a token opens; a function opens a parenthesis. -/
def opens? : Kind → Option Bracket
  | function _ => some .round
  | opening b => some b
  | _ => none

/-- The bracket that a token closes, if one of its kind is open. -/
def closes? : Kind → Option Bracket
  | closing b => some b
  | _ => none

end Kind

/-! ### Characters -/

/-- Newlines, spaces and tabs, which separate tokens. -/
def isBlank (c : Char) : Bool := Text.isNewline c || c = ' ' || c = '\t'

def isHexDigit (c : Char) : Bool := isDigit c || ('a' ≤ c && c ≤ 'f') || ('A' ≤ c && c ≤ 'F')

/-- Letters, the underscore, NUL and every character beyond ASCII. -/
def isNameStart (c : Char) : Bool :=
  ('a' ≤ c && c ≤ 'z') || ('A' ≤ c && c ≤ 'Z') || c = '_' || c = '\x00' || 0x80 ≤ c.toNat

def isNameChar (c : Char) : Bool := isNameStart c || isDigit c || c = '-'

/-- NUL reads as the replacement character. -/
def readable (c : Char) : Char := if c = '\x00' then '\ufffd' else c

def startsNewline : List Char → Bool
  | c :: _ => Text.isNewline c
  | [] => false

/-- A backslash begins an escape unless a newline follows it. -/
def startsEscape : List Char → Bool
  | '\\' :: rest => ! startsNewline rest
  | _ => false

/-- Whether an identifier begins here. After a hyphen a backslash will do, whatever follows it. -/
def startsIdent : List Char → Bool
  | '-' :: c :: _ => isNameStart c || c = '-' || c = '\\'
  | c :: rest => isNameStart c || startsEscape (c :: rest)
  | [] => false

/-- A digit, or a point before one. -/
def startsUnsigned : List Char → Bool
  | '.' :: rest => startsDigit rest
  | cs => startsDigit cs

def startsNumber (cs : List Char) : Bool := startsUnsigned (Text.splitSign cs).2

end Timeline.Css
