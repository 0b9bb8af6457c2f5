/-! Pieces of written numbers: a sign, a run of digits, a fraction, an exponent.

Each is cut off the front of a text, and what is cut off and what remains make up the text
(`splitSign_append`, `splitDigits_append`, `splitFraction_append`, `splitExponent_append`). -/
namespace Timeline.Text

/-- The ten digits of ASCII. -/
def isDigit (c : Char) : Bool := '0' ≤ c && c ≤ '9'

def startsDigit : List Char → Bool
  | d :: _ => isDigit d
  | [] => false

/-- A sign, if there is one. -/
def splitSign : List Char → List Char × List Char
  | c :: rest => if c = '+' || c = '-' then ([c], rest) else ([], c :: rest)
  | [] => ([], [])

/-- All digits up to the first character that is none. -/
def splitDigits (cs : List Char) : List Char × List Char := (cs.takeWhile isDigit, cs.dropWhile isDigit)

/-- A fraction: a point and at least one digit. -/
def splitFraction : List Char → List Char × List Char
  | '.' :: rest =>
    if startsDigit rest then ('.' :: (splitDigits rest).1, (splitDigits rest).2) else ([], '.' :: rest)
  | cs => ([], cs)

/-- The mark of an exponent, a sign if there is one, and digits; nothing where a digit is missing. -/
def splitExponent : List Char → List Char × List Char
  | e :: rest =>
    let (sign, digits) := splitSign rest
    if (e = 'e' || e = 'E') && startsDigit digits then
      (e :: (sign ++ (splitDigits digits).1), (splitDigits digits).2)
    else ([], e :: rest)
  | [] => ([], [])

theorem splitSign_append (cs : List Char) : (splitSign cs).1 ++ (splitSign cs).2 = cs := by
  fun_cases splitSign cs <;> rfl

theorem splitDigits_append (cs : List Char) : (splitDigits cs).1 ++ (splitDigits cs).2 = cs :=
  List.takeWhile_append_dropWhile

theorem splitFraction_append (cs : List Char) : (splitFraction cs).1 ++ (splitFraction cs).2 = cs := by
  fun_cases splitFraction cs <;> simp [splitDigits_append]

theorem splitExponent_append (cs : List Char) :
    (splitExponent cs).1 ++ (splitExponent cs).2 = cs := by
  fun_cases splitExponent cs with
  | case1 e rest sign digits hs =>
    have h := splitSign_append rest
    have hd := splitDigits_append digits
    simp_all
  | case2 => rfl
  | case3 => rfl

/-- The number that digits stand for, most significant first. -/
def digitsValue (digits : List Char) : Nat :=
  digits.foldl (fun n c => 10 * n + (c.toNat - '0'.toNat)) 0

end Timeline.Text
