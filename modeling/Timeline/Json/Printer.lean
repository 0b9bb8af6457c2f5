import Timeline.Json.Basic
import Timeline.Number.Written

/-! Writing JSON.

Compact text has no blanks. Pretty text has each item and member on a line of its own,
indented by two spaces for each level; empty arrays and objects stay on one line. -/
namespace Timeline.Json

open Number (Decimal Double)

/-! ### Strings -/

def hexDigit (n : Nat) : Char := if n < 10 then Char.ofNat (n + '0'.toNat) else Char.ofNat (n - 10 + 'a'.toNat)

/-- Quotes, backslashes and controls are escaped, and nothing else. -/
def escaped (c : Char) : List Char :=
  if c = '"' then ['\\', '"']
  else if c = '\\' then ['\\', '\\']
  else if c = '\x08' then ['\\', 'b']
  else if c = '\x0c' then ['\\', 'f']
  else if c = '\n' then ['\\', 'n']
  else if c = '\r' then ['\\', 'r']
  else if c = '\t' then ['\\', 't']
  else if c.toNat < 0x20 then ['\\', 'u', '0', '0', hexDigit (c.toNat / 16), hexDigit (c.toNat % 16)]
  else [c]

def quoted (text : String) : List Char := '"' :: (text.toList.flatMap escaped ++ ['"'])

/-! ### Numbers -/

def integerLiteral (n : Int) : List Char :=
  match n with
  | .ofNat n => Number.digitChars n
  | .negSucc n => '-' :: Number.digitChars (n + 1)

/-- Where numbers are written with an exponent: the point would stand more than 16 places
behind the first digit, or more than 4 places in front of it. -/
def isScientific (d : Decimal) : Bool := 16 < d.point || d.point < -4

/-- A decimal with a fraction of at least one digit, or with an exponent that has a sign and
no zeros in front. -/
def decimalLiteral (d : Decimal) : List Char :=
  if isScientific d then
    let (first, others, exponent) := d.scientific
    let fraction := if others.isEmpty then [] else '.' :: others
    let sign := if exponent < 0 then '-' else '+'
    first :: (fraction ++ 'e' :: sign :: Number.digitChars exponent.natAbs)
  else
    let (whole, fraction) := d.positional
    whole ++ '.' :: (if fraction.isEmpty then ['0'] else fraction)

/-- Whole numbers are written as such up to this magnitude, up to which all of them are doubles. -/
def greatestExact : Nat := Nat.pow 2 53

/-- Numbers that are not finite are `null`. A whole number of no more than the greatest exact
magnitude has no point; every other number has its shortest digits. -/
def ofDouble (x : Double) : Value :=
  match x with
  | .finite negative significand exponent =>
    match x.toInt?.filter (·.natAbs ≤ greatestExact) with
    | some n => .number (integerLiteral n)
    | none =>
      let literal := decimalLiteral (Number.shortest significand exponent)
      .number (if negative then '-' :: literal else literal)
  | _ => .null

/-! ### Layouts -/

/-- Texts with a comma between each two. -/
def commaSeparated : List (List Char) → List Char
  | [] => []
  | [text] => text
  | text :: more => text ++ ',' :: commaSeparated more

def nullWord : List Char := ['n', 'u', 'l', 'l']

def booleanWord (value : Bool) : List Char :=
  if value then ['t', 'r', 'u', 'e'] else ['f', 'a', 'l', 's', 'e']

mutual

/-- The compact text of a value. -/
def compact : Value → List Char
  | .null => nullWord
  | .boolean value => booleanWord value
  | .number literal => literal
  | .string text => quoted text
  | .array items => '[' :: (commaSeparated (compactItems items) ++ [']'])
  | .object members => '\x7b' :: (commaSeparated (compactMembers members) ++ ['\x7d'])

def compactItems : List Value → List (List Char)
  | [] => []
  | item :: items => compact item :: compactItems items

def compactMembers : List (String × Value) → List (List Char)
  | [] => []
  | (key, value) :: members => (quoted key ++ ':' :: compact value) :: compactMembers members

end

/-- A new line at some level. -/
def newline (level : Nat) : List Char := '\n' :: List.replicate (2 * level) ' '

/-- Texts on lines of their own, one level below `level`, between an opening and a closing character. -/
def onLines (level : Nat) (opener closer : Char) (texts : List (List Char)) : List Char :=
  if texts.isEmpty then [opener, closer]
  else opener :: (commaSeparated (texts.map (newline (level + 1) ++ ·)) ++ newline level ++ [closer])

mutual

/-- The pretty text of a value that begins on a line at some level. -/
def pretty (level : Nat) : Value → List Char
  | .null => nullWord
  | .boolean value => booleanWord value
  | .number literal => literal
  | .string text => quoted text
  | .array items => onLines level '[' ']' (prettyItems level items)
  | .object members => onLines level '\x7b' '\x7d' (prettyMembers level members)

def prettyItems (level : Nat) : List Value → List (List Char)
  | [] => []
  | item :: items => pretty (level + 1) item :: prettyItems level items

def prettyMembers (level : Nat) : List (String × Value) → List (List Char)
  | [] => []
  | (key, value) :: members =>
    (quoted key ++ ':' :: ' ' :: pretty (level + 1) value) :: prettyMembers level members

end

/-- The text of a value, compact or pretty. -/
def Value.text (isPretty : Bool) (value : Value) : String :=
  String.ofList (if isPretty then pretty 0 value else compact value)

end Timeline.Json
