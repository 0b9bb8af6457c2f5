import Timeline.Text.Digits
import Timeline.Text.Utf8

/-! Where the number at the front of a text ends.

A cursor goes over the bytes of the text and stops behind the last piece that makes a number of all before
it: a point needs a digit on one side, and an exponent needs a digit behind its mark and sign. -/
namespace Timeline.Number.Cursor

open Text (endOf isDigit standsAt)

def isSign (c : Char) : Bool := c = '+' || c = '-'

def isMark (c : Char) : Bool := c = 'e' || c = 'E'

/-- Behind a sign, if there is one. -/
def signEnd (bytes : List UInt8) (i : Nat) : Nat := if standsAt isSign bytes i then i + 1 else i

/-- Behind digits. -/
def digitsEnd (bytes : List UInt8) (i : Nat) : Nat := endOf isDigit bytes i

/-- Behind a point and its digits, where digits from `start` on end at `i`. There is no answer without any digit. -/
def pointEnd? (bytes : List UInt8) (start i : Nat) : Option Nat :=
  let stop := digitsEnd bytes (i + 1)
  if standsAt (· = '.') bytes i ∧ (start < i ∨ i + 1 < stop) then some stop
  else if start < i then some i
  else none

/-- Behind an exponent, if there is a whole one. -/
def exponentEnd (bytes : List UInt8) (i : Nat) : Nat :=
  let digits := signEnd bytes (i + 1)
  let stop := digitsEnd bytes digits
  if standsAt isMark bytes i ∧ digits < stop then stop else i

/-- Behind the number, where its sign ends at `start`. -/
def numberEnd? (bytes : List UInt8) (start : Nat) : Option Nat :=
  (pointEnd? bytes start (digitsEnd bytes start)).map (exponentEnd bytes)

end Timeline.Number.Cursor
