/-! Numbers of double precision.

A finite number is a significand times a power of two, in the one form in which the
significand is at least 2^52 or the exponent is least. Numbers are made from quotients of
naturals by rounding once, to the nearest, a tie to the even significand
(`roundDiv_nearest`). -/
namespace Timeline.Number

inductive Double where
  | nan
  | infinite (negative : Bool)
  /-- The significand times two to the exponent, with a sign; zero has a sign too. -/
  | finite (negative : Bool) (significand : Nat) (exponent : Int)
deriving DecidableEq, Repr

/-! ### Rounding -/

/-- The natural nearest to `n / d`; of two that are as near, the even one. -/
def roundDiv (n d : Nat) : Nat :=
  let q := n / d
  let r := n % d
  if d < 2 * r ∨ (2 * r = d ∧ q % 2 = 1) then q + 1 else q

/-- Rounding is off by at most half a unit. -/
theorem roundDiv_nearest (n d : Nat) (hd : 0 < d) :
    2 * n ≤ 2 * (roundDiv n d * d) + d ∧ 2 * (roundDiv n d * d) ≤ 2 * n + d := by
  have h := Nat.div_add_mod' n d
  have hr := Nat.mod_lt n hd
  unfold roundDiv
  simp only
  generalize n / d = q at *
  generalize n % d = r at *
  subst h
  split
  · have : (q + 1) * d = q * d + d := Nat.succ_mul q d
    omega
  · omega

namespace Double

def leastExponent : Int := -1074
def greatestExponent : Int := 971

def zero (negative : Bool) : Double := finite negative 0 leastExponent

/-- A quotient times two to the power of `-e`, as a quotient. -/
def scale (n d : Nat) (e : Int) : Nat × Nat :=
  if 0 ≤ e then (n, d * Nat.pow 2 e.toNat) else (n * Nat.pow 2 (-e).toNat, d)

/-- The exponent at which the significand of `n / d` has 53 binary digits, if that is not too small. -/
def exponentOf (n d : Nat) : Int :=
  let e : Int := (n.log2 : Int) - d.log2 - 53
  let (a, b) := scale n d e
  max leastExponent (if a < Nat.pow 2 53 * b then e else e + 1)

/-- The number nearest to `n / d`. -/
def ofQuotient (negative : Bool) (n d : Nat) : Double :=
  if n = 0 then zero negative
  else
    let e := exponentOf n d
    let (a, b) := scale n d e
    let m := roundDiv a b
    let (m, e) := if m = Nat.pow 2 53 then (Nat.pow 2 52, e + 1) else (m, e)
    if greatestExponent < e then infinite negative else finite negative m e

/-- The number nearest to `digits` times ten to the exponent. Far outside of the range no
power of ten is formed: from 10^310 on everything is infinite, and below 2^-1075 zero. -/
def ofDecimal (negative : Bool) (digits : Nat) (exponent : Int) : Double :=
  if digits = 0 then zero negative
  else if 0 ≤ exponent then
    if 310 ≤ exponent then infinite negative else ofQuotient negative (digits * Nat.pow 10 exponent.toNat) 1
  else if (digits.log2 : Int) + 1 + 3 * exponent ≤ -1075 then zero negative
  else ofQuotient negative digits (Nat.pow 10 (-exponent).toNat)

/-! ### Encoding -/

/-- The 64 bits of the interchange format, as a natural. -/
def toBits : Double → Nat
  | nan => 0x7ff8000000000000
  | infinite negative => negative.toNat * Nat.pow 2 63 + 0x7ff0000000000000
  | finite negative significand exponent =>
    negative.toNat * Nat.pow 2 63 +
      if significand < Nat.pow 2 52 then significand
      else (exponent - leastExponent + 1).toNat * Nat.pow 2 52 + (significand - Nat.pow 2 52)

/-- A significand times two to the exponent, if that is a whole number. -/
def magnitude? (significand : Nat) (exponent : Int) : Option Nat :=
  if significand = 0 then some 0
  else if 0 ≤ exponent then some (significand * Nat.pow 2 exponent.toNat)
  else if significand % Nat.pow 2 (-exponent).toNat = 0 then some (significand / Nat.pow 2 (-exponent).toNat)
  else none

/-- The value of a number, if it is a whole one. -/
def toInt? : Double → Option Int
  | finite negative significand exponent =>
    (magnitude? significand exponent).map fun (n : Nat) => if negative then -(n : Int) else n
  | _ => none

end Double

end Timeline.Number
