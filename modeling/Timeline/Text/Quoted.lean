import Timeline.Text.Combining

/-! Texts between quotation marks, for messages that a person reads.

Every character shows as itself or as an escape that names it, so that no two texts look
alike. -/
namespace Timeline.Text

/-- A character by its number. -/
def numbered (c : Char) : List Char :=
  '\\' :: 'u' :: '\x7b' :: (Nat.toDigits 16 c.toNat ++ ['\x7d'])

/-- What a character looks like between quotation marks. -/
def shown (c : Char) : List Char :=
  if c = '\x00' then ['\\', '0']
  else if c = '\t' then ['\\', 't']
  else if c = '\r' then ['\\', 'r']
  else if c = '\n' then ['\\', 'n']
  else if c = '\\' then ['\\', '\\']
  else if c = '"' then ['\\', '"']
  else if isCombining c || ! isPrintable c then numbered c
  else [c]

def quoted (text : String) : String := String.ofList ('"' :: (text.toList.flatMap shown ++ ['"']))

end Timeline.Text
