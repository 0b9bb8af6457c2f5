import Timeline.Number.Numeral
import Timeline.Text.Reader
import Timeline.Toml.Value

/-! Strings, numbers, dates and times of settings files. -/
namespace Timeline.Toml

open Number (Double)
open Text (Reader digitsValue isDigit)
open Text.Reader (char count exactly many chars chars1)

/-- Spaces and tabs. -/
def isSpace (c : Char) : Bool := c = ' ' || c = '\t'

def spaces : Reader Unit := do let _ ← chars isSpace

def newline : Reader Unit := exactly ['\n'] <|> exactly ['\r', '\n']

/-- What may stand in a line: everything but controls, of which the tab is allowed. -/
def isLineChar (c : Char) : Bool := c = '\t' || (0x20 ≤ c.toNat && c.toNat ≠ 0x7f)

/-! ### Strings -/

def isHexDigit (c : Char) : Bool := isDigit c || ('a' ≤ c && c ≤ 'f') || ('A' ≤ c && c ≤ 'F')

def digitValue (c : Char) : Nat :=
  if isDigit c then c.toNat - '0'.toNat
  else if 'a' ≤ c then c.toNat - 'a'.toNat + 10
  else c.toNat - 'A'.toNat + 10

/-- The number that digits stand for in some base. -/
def valueIn (base : Nat) (digits : List Char) : Nat := digits.foldl (fun n c => base * n + digitValue c) 0

/-- A character by a number of so many hexadecimal digits. -/
def numberedChar (digits : Nat) : Reader Char := do
  let n := valueIn 16 (← count digits isHexDigit)
  if n.isValidChar then return Char.ofNat n else failure

/-- A character after a backslash. -/
def escape : Reader Char := do
  let _ ← char (· = '\\')
  match ← char fun _ => true with
  | 'b' => return '\x08'
  | 't' => return '\t'
  | 'n' => return '\n'
  | 'f' => return '\x0c'
  | 'r' => return '\r'
  | '"' => return '"'
  | '\\' => return '\\'
  | 'u' => numberedChar 4
  | 'U' => numberedChar 8
  | _ => failure

/-- Characters that stand for themselves between double quotes. -/
def isBasicChar (c : Char) : Bool := isLineChar c && c ≠ '"' && c ≠ '\\'

def isLiteralChar (c : Char) : Bool := isLineChar c && c ≠ '\''

def basicString : Reader (List Char) := do
  exactly ['"']
  let parts ← many (chars1 isBasicChar <|> (List.singleton <$> escape))
  exactly ['"']
  return parts.flatten

def literalString : Reader (List Char) := do
  exactly ['\'']
  let text ← chars isLiteralChar
  exactly ['\'']
  return text

/-- A newline in a string of several lines. -/
def lineBreak : Reader (List Char) := do newline; return ['\n']

/-- A backslash at the end of a line joins it to the next text, blanks and newlines between left out. -/
def joinedLines : Reader (List Char) := do
  exactly ['\\']
  spaces
  newline
  let _ ← many (newline <|> do let _ ← chars1 isSpace)
  return []

def basicPart : Reader (List Char) :=
  chars1 isBasicChar <|> joinedLines <|> (List.singleton <$> escape) <|> lineBreak

def literalPart : Reader (List Char) := chars1 isLiteralChar <|> lineBreak

/-- A string between three quotes. One or two quotes may stand anywhere in it, also at its
end; a newline right after the opening quotes does not count. -/
def multiline (quote : Char) (part : Reader (List Char)) : Reader (List Char) := do
  exactly [quote, quote, quote]
  let _ ← optional newline
  let quotedPart (quotes : List Char) : Reader (List Char) := do
    exactly quotes
    return quotes ++ (← part)
  let parts ← many (part <|> quotedPart [quote, quote] <|> quotedPart [quote])
  let ending (quotes : List Char) : Reader (List Char) := do
    exactly (quotes ++ [quote, quote, quote])
    return quotes
  let last ← ending [quote, quote] <|> ending [quote] <|> ending []
  return parts.flatten ++ last

def string : Reader String :=
  String.ofList <$> (multiline '"' basicPart <|> basicString <|> multiline '\'' literalPart <|> literalString)

/-! ### Numbers -/

/-- Digits of a class, with single underscores between them left out. -/
def spacedDigits (p : Char → Bool) : Reader (List Char) := do
  let first ← char p
  let more ← many (char p <|> (exactly ['_'] *> char p))
  return first :: more

def sign : Reader Bool := do
  match ← optional (char fun c => c = '+' || c = '-') with
  | some '-' => return true
  | _ => return false

/-- A whole number in tens, with a sign; no zeros in front. -/
def wholeDigits : Reader (Bool × List Char) := do
  let negative ← sign
  let digits ← (do
    let first ← char fun c => '1' ≤ c && c ≤ '9'
    let more ← many (char isDigit <|> (exactly ['_'] *> char isDigit))
    return first :: more) <|> (List.singleton <$> char isDigit)
  return (negative, digits)

def exponent : Reader Int := do
  let _ ← char fun c => c = 'e' || c = 'E'
  let negative ← sign
  let n := digitsValue (← spacedDigits isDigit)
  return if negative then -(n : Int) else n

def fraction : Reader (List Char) := exactly ['.'] *> spacedDigits isDigit

/-- A number with a fraction, an exponent, or both. One that is too large is refused if it is positive. -/
def finiteFloat : Reader Double := do
  let (negative, whole) ← wholeDigits
  let (places, power) ← (do return ([], ← exponent)) <|> (do
    let places ← fraction
    return (places, (← optional exponent).getD 0))
  let x := Double.ofDecimal negative (digitsValue (whole ++ places)) (power - places.length)
  if x = .infinite false then failure else return x

def specialFloat : Reader Double := do
  let negative ← sign
  (do exactly ['i', 'n', 'f']; return .infinite negative) <|> (do exactly ['n', 'a', 'n']; return .nan)

def float : Reader Double := finiteFloat <|> specialFloat

/-- A whole number after a mark of its base. -/
def basedInteger (mark : Char) (base : Nat) : Reader Int := do
  exactly ['0', mark]
  return valueIn base (← spacedDigits fun c => isHexDigit c && digitValue c < base)

def wholeNumber : Reader Int := do
  let (negative, digits) ← wholeDigits
  return if negative then -(digitsValue digits : Int) else digitsValue digits

/-- A whole number of 64 bits with a sign. -/
def integer : Reader Int := do
  let n ← basedInteger 'x' 16 <|> basedInteger 'o' 8 <|> basedInteger 'b' 2 <|> wholeNumber
  if -Nat.pow 2 63 ≤ n ∧ n < Nat.pow 2 63 then return n else failure

/-! ### Dates and times -/

/-- A number of so many digits within bounds. -/
def bounded (digits low high : Nat) : Reader Nat := do
  let n := digitsValue (← count digits isDigit)
  if low ≤ n ∧ n ≤ high then return n else failure

def daysIn (year month : Nat) : Nat :=
  if month = 2 then (if year % 4 = 0 ∧ (year % 100 ≠ 0 ∨ year % 400 = 0) then 29 else 28)
  else if month = 4 ∨ month = 6 ∨ month = 9 ∨ month = 11 then 30
  else 31

def date : Reader Unit := do
  let year ← bounded 4 0 9999
  exactly ['-']
  let month ← bounded 2 1 12
  exactly ['-']
  let _ ← bounded 2 1 (daysIn year month)

def time : Reader Unit := do
  let _ ← bounded 2 0 23
  exactly [':']
  let _ ← bounded 2 0 59
  exactly [':']
  let _ ← bounded 2 0 60
  let _ ← optional (exactly ['.'] *> chars1 isDigit)

/-- How far a time is from the time of the zero meridian. -/
def zone : Reader Unit :=
  (do let _ ← char fun c => c = 'Z' || c = 'z') <|> do
    let _ ← char fun c => c = '+' || c = '-'
    let _ ← bounded 2 0 23
    exactly [':']
    let _ ← bounded 2 0 59

def dateTime : Reader Unit :=
  (do
    date
    let _ ← optional do
      let _ ← char fun c => c = 'T' || c = 't' || c = ' '
      time
      let _ ← optional zone) <|> time

end Timeline.Toml
