import Timeline.Number.Double

/-! The shortest decimal that reads back as a number.

Around each number lies an interval of reals that round to it. On the grid of decimals
with one digit, with two digits, and so on, the two neighbours of the number are tested;
the first grid with a neighbour in the interval gives the digits. -/
namespace Timeline.Number

/-- Digits times ten to an exponent. -/
structure Decimal where
  digits : Nat
  exponent : Int
deriving DecidableEq, Repr

/-- The reals that round to a number, from `low` to `high` with the number in the middle, all
counted in quarters of the last place of its significand. The ends belong to the interval
if the significand is even. -/
structure Interval where
  low : Nat
  middle : Nat
  high : Nat
  closed : Bool
  /-- The exponent of a quarter of the last place. -/
  exponent : Int
deriving DecidableEq, Repr

/-- Below a power of two the next number is only half as far away. -/
def Interval.around (significand : Nat) (exponent : Int) : Interval :=
  { low := if significand = Nat.pow 2 52 ∧ Double.leastExponent < exponent then 4 * significand - 1
      else 4 * significand - 2
    middle := 4 * significand
    high := 4 * significand + 2
    closed := significand % 2 = 0
    exponent := exponent - 2 }

/-- The factors by which quarters and a decimal grid become whole: `q` quarters are the
decimal `d` of the grid if `q * a = d * b`. -/
def gridFactors (quarter : Int) (grid : Int) : Nat × Nat :=
  let (a, b) := if 0 ≤ quarter then (Nat.pow 2 quarter.toNat, 1) else (1, Nat.pow 2 (-quarter).toNat)
  if 0 ≤ grid then (a, b * Nat.pow 10 grid.toNat) else (a * Nat.pow 10 (-grid).toNat, b)

/-- The neighbour on a grid that lies in the interval, if there is one: of two the nearer,
of two that are as near the even one. -/
def Interval.onGrid? (i : Interval) (grid : Int) : Option Nat :=
  let (a, b) := gridFactors i.exponent grid
  let below := i.middle * a / b
  let above := below + 1
  let inside (d : Nat) : Bool :=
    if i.closed then i.low * a ≤ d * b && d * b ≤ i.high * a else i.low * a < d * b && d * b < i.high * a
  let toBelow := i.middle * a - below * b
  let toAbove := above * b - i.middle * a
  match inside below, inside above with
  | true, true =>
    some (if toBelow < toAbove then below
      else if toAbove < toBelow then above
      else if below % 2 = 0 then below else above)
  | true, false => some below
  | false, true => some above
  | false, false => none

/-- How many digits a natural has before the decimal point when it is divided by another:
the least `p` with `n < d * 10 ^ p`, from a first guess by binary length. -/
def pointOf (n d : Nat) : Int :=
  -- One binary digit is 0.30103 decimal digits, so the guess is too high by one at most.
  let guess : Int := ((n.log2 : Int) - d.log2 + 1) * 30103 / 100000 + 1
  let small (p : Int) : Bool := if 0 ≤ p then n < d * Nat.pow 10 p.toNat else n * Nat.pow 10 (-p).toNat < d
  if small (guess - 2) then guess - 2
  else if small (guess - 1) then guess - 1
  else if small guess then guess
  else guess + 1

/-- Without the zeros at the end of the digits. -/
def Decimal.normal (d : Decimal) : Decimal :=
  if _h : 0 < d.digits ∧ d.digits % 10 = 0 then Decimal.normal ⟨d.digits / 10, d.exponent + 1⟩ else d
termination_by d.digits
decreasing_by omega

/-- The first grid with a neighbour in the interval, of those with `tried + 1` to 17 digits. -/
def shortestFrom (i : Interval) (point : Int) (tried : Nat) : Decimal :=
  let grid := point - (tried + 1 : Nat)
  match i.onGrid? grid with
  | some d => Decimal.normal ⟨d, grid⟩
  | none => if tried < 17 then shortestFrom i point (tried + 1) else ⟨0, 0⟩
termination_by 17 - tried

/-- The shortest decimal for a significand that is not zero; of the shortest the nearest. -/
def shortest (significand : Nat) (exponent : Int) : Decimal :=
  let i := Interval.around significand exponent
  let (a, b) := gridFactors i.exponent 0
  shortestFrom i (pointOf (i.middle * a) b) 0

end Timeline.Number
