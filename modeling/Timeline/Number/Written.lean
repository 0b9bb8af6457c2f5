import Timeline.Number.Shortest

/-! Ways to write a decimal. -/
namespace Timeline.Number

/-- The digits of a natural, most significant first. -/
def digitChars (n : Nat) : List Char := Nat.toDigits 10 n

namespace Decimal

/-- Where the point stands, counted from the front of the digits. -/
def point (d : Decimal) : Int := (digitChars d.digits).length + d.exponent

/-- All digits in their places, with zeros between them and the point; the fraction is
empty if the decimal is whole. -/
def positional (d : Decimal) : List Char × List Char :=
  let cs := digitChars d.digits
  if 0 ≤ d.exponent then (cs ++ List.replicate d.exponent.toNat '0', [])
  else if 0 < d.point then (cs.take d.point.toNat, cs.drop d.point.toNat)
  else (['0'], List.replicate (-d.point).toNat '0' ++ cs)

/-- One digit before the point, the others after it, and the exponent that puts the point back. -/
def scientific (d : Decimal) : Char × List Char × Int :=
  match digitChars d.digits with
  | [] => ('0', [], 0)
  | c :: cs => (c, cs, d.point - 1)

end Decimal

/-- A number in words of a message: never with an exponent, always with a fraction. -/
def Double.display : Double → String
  | nan => "NaN"
  | infinite negative => if negative then "-inf" else "inf"
  | finite negative significand exponent =>
    let (whole, fraction) := if significand = 0 then (['0'], []) else (shortest significand exponent).positional
    let digits := whole ++ '.' :: (if fraction.isEmpty then ['0'] else fraction)
    String.ofList (if negative then '-' :: digits else digits)

end Timeline.Number
