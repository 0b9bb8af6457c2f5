/-! Readers: what takes something off the front of a text, or refuses.

A reader that refuses leaves the text to the next one. Repetition ends because it counts:
no list has more items than the text has characters. -/
namespace Timeline.Text

abbrev Reader := StateT (List Char) Option

namespace Reader

variable {α β : Type}

/-- One character of a class. -/
def char (p : Char → Bool) : Reader Char
  | c :: rest => if p c then some (c, rest) else none
  | [] => none

/-- These characters, one after the other. -/
def exactly : List Char → Reader Unit
  | [] => pure ()
  | c :: cs => do
    let _ ← char (· = c)
    exactly cs

/-- All characters up to the first one that is not of the class. -/
def chars (p : Char → Bool) : Reader (List Char) := fun cs => some (cs.takeWhile p, cs.dropWhile p)

/-- At least one character of a class. -/
def chars1 (p : Char → Bool) : Reader (List Char) := do
  let c ← char p
  let cs ← chars p
  return c :: cs

/-- A number of characters of a class. -/
def count (n : Nat) (p : Char → Bool) : Reader (List Char) := (List.range n).mapM fun _ => char p

/-- Reads at most `n` times, up to where the reader refuses. -/
def upTo (reader : Reader α) : Nat → Reader (List α)
  | 0 => pure []
  | n + 1 => (do
      let a ← reader
      let more ← upTo reader n
      return a :: more) <|> pure []

/-- Reads for as long as the reader does not refuse. -/
def many (reader : Reader α) : Reader (List α) := fun cs => upTo reader cs.length cs

/-- Items with a separator between each two; none at all is fine. -/
def separated (item : Reader α) (separator : Reader β) : Reader (List α) := (do
  let first ← item
  let more ← many (separator *> item)
  return first :: more) <|> pure []

/-- The end of the text. -/
def finished : Reader Unit
  | [] => some ((), [])
  | _ => none

/-- What a reader makes of a whole text. -/
def whole? (reader : Reader α) (cs : List Char) : Option α := (StateT.run (reader <* finished) cs).map Prod.fst

end Reader

end Timeline.Text
