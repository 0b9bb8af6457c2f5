import Timeline.Css.Content
import Timeline.Text.WhiteSpace

/-! The text of component values without their comments.

Where a comment goes, the blanks right after it go with it if what stands before already
ends in a blank, so that words stay one blank apart. White space at both ends goes too. -/
namespace Timeline.Css

/-- Whether a text ends in a blank. -/
def endsBlank (text : List Char) : Bool := text.getLast?.any isBlank

/-- Tokens without comments. `blankBefore` says whether the text kept so far ends in a
blank, `afterComment` whether a comment comes right before these tokens. -/
def strip (blankBefore afterComment : Bool) : List Token → List Char
  | [] => []
  | t :: ts =>
    if t.kind.isComment then strip blankBefore true ts
    else if t.kind = .blank ∧ afterComment ∧ blankBefore then strip blankBefore false ts
    else t.text ++ strip (endsBlank t.text) false ts

/-- Without comments nothing is taken away. -/
theorem strip_eq_texts (blankBefore : Bool) (ts : List Token)
    (h : ∀ t ∈ ts, t.kind.isComment = false) :
    strip blankBefore false ts = ts.flatMap Token.text := by
  induction ts generalizing blankBefore with
  | nil => rfl
  | cons t ts ih =>
    simp only [List.mem_cons, forall_eq_or_imp] at h
    simp [strip, h.1, ih (endsBlank t.text) h.2]

namespace Content

def excerpt (c : Content) : List Char := Text.trim (strip false false c.tokens)

end Content

end Timeline.Css
