/-! Texts and places in them that are counted in bytes.

A place between two characters cuts the text in two; one inside of a character cuts nothing. -/
namespace Timeline.Text

/-- The bytes of a text. -/
def utf8 (cs : List Char) : List UInt8 := cs.flatMap String.utf8EncodeChar

/-- The two parts of a text in front of a place and behind it, if it is no place inside of a character and none
behind the end. -/
def splitAt? : List Char → Nat → Option (List Char × List Char)
  | cs, 0 => some ([], cs)
  | [], _ + 1 => none
  | c :: cs, n + 1 =>
    if c.utf8Size ≤ n + 1 then
      (splitAt? cs (n + 1 - c.utf8Size)).map fun (front, back) => (c :: front, back)
    else none

/-- Whether there is a byte at a place that, as a character, is one of a class. -/
def standsAt (p : Char → Bool) (bytes : List UInt8) (i : Nat) : Bool :=
  bytes[i]?.any fun b => p (Char.ofNat b.toNat)

/-- Behind all bytes of a class from a place on. -/
def endOf (p : Char → Bool) (bytes : List UInt8) (i : Nat) : Nat :=
  i + ((bytes.drop i).takeWhile fun b => p (Char.ofNat b.toNat)).length

end Timeline.Text
