import Timeline.Number.Double
import Timeline.Text.Digits

/-! Numbers as they are written at the front of a text.

A numeral is a sign, digits with a point among or around them, and an exponent; at least
one digit outside of the exponent is needed, and everything else may be missing.
`Numeral.split?` takes the numeral off a text and leaves what it does not use. -/
namespace Timeline.Number

open Text (digitsValue splitDigits splitExponent splitSign)

structure Numeral where
  sign : List Char
  whole : List Char
  /-- The digits behind the point, if there is a point. -/
  fraction : Option (List Char)
  /-- The exponent with its mark. -/
  exponent : List Char
deriving DecidableEq, Repr

namespace Numeral

/-- As written. -/
def text (n : Numeral) : List Char :=
  n.sign ++ (n.whole ++ (n.fraction.elim [] ('.' :: ·) ++ n.exponent))

/-- The point and the digits behind it. There must be digits on one side of the point. -/
def splitPoint (whole : List Char) : List Char → Option (List Char) × List Char
  | '.' :: rest =>
    let (digits, last) := splitDigits rest
    if whole = [] ∧ digits = [] then (none, '.' :: rest) else (some digits, last)
  | cs => (none, cs)

/-- The numeral at the front of a text, and what follows it. -/
def split? (cs : List Char) : Option (Numeral × List Char) :=
  let (sign, cs) := splitSign cs
  let (whole, cs) := splitDigits cs
  let (fraction, cs) := splitPoint whole cs
  if whole = [] ∧ fraction = none then none
  else
    let (exponent, cs) := splitExponent cs
    some (⟨sign, whole, fraction, exponent⟩, cs)

theorem splitPoint_append (whole cs : List Char) :
    (splitPoint whole cs).1.elim [] ('.' :: ·) ++ (splitPoint whole cs).2 = cs := by
  unfold splitPoint
  split
  · rename_i rest
    have := Text.splitDigits_append rest
    simp only
    split <;> simp_all
  · rfl

theorem split?_append {cs rest : List Char} {n : Numeral} (h : split? cs = some (n, rest)) :
    n.text ++ rest = cs := by
  have hs := Text.splitSign_append cs
  have hw := Text.splitDigits_append (splitSign cs).2
  have hp := splitPoint_append (splitDigits (splitSign cs).2).1 (splitDigits (splitSign cs).2).2
  have he := Text.splitExponent_append
    (splitPoint (splitDigits (splitSign cs).2).1 (splitDigits (splitSign cs).2).2).2
  simp only [split?] at h
  split at h
  · simp at h
  · obtain ⟨rfl, rfl⟩ := Prod.mk.inj (Option.some.inj h)
    simp only [text, List.append_assoc, he, hp, hw, hs]

/-- What an exponent, written with its mark, stands for. -/
def exponentValue : List Char → Int
  | [] => 0
  | _ :: rest =>
    let (sign, digits) := splitSign rest
    if sign = ['-'] then -(digitsValue digits : Int) else digitsValue digits

/-- The number nearest to what is written. -/
def value (n : Numeral) : Double :=
  let fraction := n.fraction.getD []
  Double.ofDecimal (n.sign = ['-']) (digitsValue (n.whole ++ fraction))
    (exponentValue n.exponent - fraction.length)

end Numeral

/-- The number that a text stands for, if it is a numeral and nothing else. -/
def parse? (text : List Char) : Option Double :=
  match Numeral.split? text with
  | some (n, []) => some n.value
  | _ => none

end Timeline.Number
