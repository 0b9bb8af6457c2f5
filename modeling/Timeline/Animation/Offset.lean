import Timeline.Number.Cursor
import Timeline.Number.Numeral
import Timeline.Text.WhiteSpace

/-! The offset that a keyframe selector stands for.

The words `from` and `to` are the two ends of the animation, 0 and 100. Any other selector
is as much as the number in front of it says, whatever unit follows; without a number in
front it has no offset, which is written as not-a-number. -/
namespace Timeline.Animation

open Number (Double parse?)
open Number.Cursor (numberEnd? signEnd)
open Text (splitAt? standsAt utf8)

/-- The number at the front of a text, after white space: an infinity, or a numeral. There is no answer where
the text would have to be cut inside of a character. -/
def leadingNumber? (text : List Char) : Option Double :=
  let cs := Text.trimStart text
  let bytes := utf8 cs
  let start := signEnd bytes 0
  (splitAt? cs start).bind fun (_, unsigned) =>
    if "Infinity".toList.isPrefixOf unsigned then some (.infinite (standsAt (· = '-') bytes 0))
    else
      match numberEnd? bytes start with
      | none => some .nan
      | some stop => (splitAt? cs stop).map fun (number, _) => (parse? number).getD .nan

/-- There always is an answer: no character is ever cut. -/
def leadingNumber (text : List Char) : Double := (leadingNumber? text).getD .nan

def Offset.ofSelector (selector : String) : Double :=
  if selector = "from" then .ofDecimal false 0 0
  else if selector = "to" then .ofDecimal false 100 0
  else leadingNumber selector.toList

end Timeline.Animation
