import Timeline.Json.Printer
import Timeline.Text.Digits

/-! Reading JSON.

The reader is a machine that takes one character at a time (`State.step`). It keeps the arrays
and objects that are still open on a stack, with what they hold so far, and a mode for what may come
next. It reads any JSON text, with blanks wherever they may stand, and refuses everything else;
members stay in the order of the text, and numbers stay as they are written.

`run_append`: a text is read by reading its parts one after the other. -/
namespace Timeline.Json

open Text (splitDigits splitFraction splitExponent)

/-! ### Strings -/

/-- The code units of what stands between quotes: the unit of an escape, the code of any other
character. -/
def units? : List Char → Option (List Nat)
  | [] => some []
  | '\\' :: 'u' :: a :: b :: c :: d :: cs =>
    match hexNumber? [a, b, c, d] with
    | some unit => (units? cs).map (unit :: ·)
    | none => none
  | '\\' :: mark :: cs =>
    match marked? mark with
    | some c => (units? cs).map (c.toNat :: ·)
    | none => none
  | c :: cs => if c = '\\' ∨ c = '"' ∨ c.toNat < 0x20 then none else (units? cs).map (c.toNat :: ·)
where
  hexDigitValue? (c : Char) : Option Nat := "0123456789abcdef".toList.idxOf? c.toLower
  /-- The number that hexadecimal digits of either case stand for. -/
  hexNumber? (digits : List Char) : Option Nat :=
    digits.foldlM (fun n c => (hexDigitValue? c).map (16 * n + ·)) 0
  /-- What a character stands for behind a backslash. -/
  marked? : Char → Option Char
    | '"' => some '"'
    | '\\' => some '\\'
    | '/' => some '/'
    | 'b' => some '\x08'
    | 'f' => some '\x0c'
    | 'n' => some '\n'
    | 'r' => some '\r'
    | 't' => some '\t'
    | _ => none

def isHighSurrogate (unit : Nat) : Bool := 0xd800 ≤ unit && unit < 0xdc00
def isLowSurrogate (unit : Nat) : Bool := 0xdc00 ≤ unit && unit < 0xe000

/-- The characters of code units. Surrogates stand in pairs only. -/
def characters? : List Nat → Option (List Char)
  | [] => some []
  | [unit] => if isHighSurrogate unit || isLowSurrogate unit then none else some [Char.ofNat unit]
  | high :: low :: units =>
    if isHighSurrogate high && isLowSurrogate low then
      (characters? units).map (Char.ofNat (0x10000 + (high - 0xd800) * 0x400 + (low - 0xdc00)) :: ·)
    else if isHighSurrogate high || isLowSurrogate high then none
    else (characters? (low :: units)).map (Char.ofNat high :: ·)

/-- The text that stands between quotes. -/
def unquoted? (raw : List Char) : Option String := ((units? raw).bind characters?).map String.ofList

/-! ### Words -/

/-- Whether digits are written without zeros in front. -/
def isPlain : List Char → Bool
  | [] => false
  | c :: cs => c ≠ '0' || cs.isEmpty

/-- Digits without zeros in front, and perhaps a fraction and an exponent. -/
def isUnsigned (cs : List Char) : Bool :=
  let (whole, behind) := splitDigits cs
  isPlain whole && (splitExponent (splitFraction behind).2).2.isEmpty

/-- A number, perhaps with a minus sign in front. -/
def isNumber : List Char → Bool
  | '-' :: cs => isUnsigned cs
  | cs => isUnsigned cs

/-- The value of a text without blanks, quotes, brackets, braces, commas and colons. -/
def Value.ofWord? (word : List Char) : Option Value :=
  if isNumber word then some (.number word)
  else if word = nullWord then some .null
  else if word = booleanWord true then some (.boolean true)
  else if word = booleanWord false then some (.boolean false)
  else none

/-! ### The machine -/

/-- An array with its items so far, or an object with its members so far and the key of the next one. -/
inductive Open where
  | array (items : List Value)
  | object (members : List (String × Value)) (key : String)

/-- What may come next. -/
inductive Mode where
  | value
  /-- The first item of an array, or the end of the array. -/
  | firstItem
  /-- The first key of an object, or the end of the object. -/
  | firstKey
  /-- A key of the object whose members so far these are. -/
  | key (members : List (String × Value))
  | colon (members : List (String × Value)) (key : String)
  /-- More of a string: of a key, if there are members, or else of a value. -/
  | quoted (members? : Option (List (String × Value))) (raw : List Char) (isMarked : Bool)
  | word (cs : List Char)
  /-- Whatever may stand behind a value. -/
  | done (value : Value)

/-- Behind a string, which is a key or a value. -/
def Mode.ofString (members? : Option (List (String × Value))) (text : String) : Mode :=
  match members? with
  | some members => .colon members text
  | none => .done (.string text)

structure State where
  stack : List Open
  mode : Mode

namespace State

def isBlank (c : Char) : Bool := c = ' ' || c = '\t' || c = '\n' || c = '\r'

def isWordChar (c : Char) : Bool :=
  !(isBlank c || c = '"' || c = '[' || c = ']' || c = '\x7b' || c = '\x7d' || c = ',' || c = ':')

/-- The first character of a value. -/
def ofValue? (stack : List Open) (c : Char) : Option State :=
  if c = '[' then some ⟨stack, .firstItem⟩
  else if c = '\x7b' then some ⟨stack, .firstKey⟩
  else if c = '"' then some ⟨stack, .quoted none [] false⟩
  else if isWordChar c then some ⟨stack, .word [c]⟩
  else none

/-- The first character of a key. -/
def ofKey? (stack : List Open) (members : List (String × Value)) (c : Char) : Option State :=
  if c = '"' then some ⟨stack, .quoted (some members) [] false⟩ else none

/-- A character behind a value: a comma, or the end of what is open. -/
def behind? (value : Value) (c : Char) : List Open → Option State
  | .array items :: stack =>
    if c = ',' then some ⟨.array (items ++ [value]) :: stack, .value⟩
    else if c = ']' then some ⟨stack, .done (.array (items ++ [value]))⟩
    else none
  | .object members key :: stack =>
    if c = ',' then some ⟨stack, .key (members ++ [(key, value)])⟩
    else if c = '\x7d' then some ⟨stack, .done (.object (members ++ [(key, value)]))⟩
    else none
  | [] => none

/-- A blank, or a character behind a value. -/
def after? (stack : List Open) (value : Value) (c : Char) : Option State :=
  if isBlank c then some ⟨stack, .done value⟩ else behind? value c stack

/-- The end of a string. -/
def unquote? (stack : List Open) (members? : Option (List (String × Value))) (raw : List Char) : Option State :=
  (unquoted? raw).map fun text => ⟨stack, .ofString members? text⟩

def step (s : State) (c : Char) : Option State :=
  match s.mode with
  | .value => if isBlank c then some s else ofValue? s.stack c
  | .firstItem =>
    if isBlank c then some s
    else if c = ']' then some ⟨s.stack, .done (.array [])⟩
    else ofValue? (.array [] :: s.stack) c
  | .firstKey =>
    if isBlank c then some s
    else if c = '\x7d' then some ⟨s.stack, .done (.object [])⟩
    else ofKey? s.stack [] c
  | .key members => if isBlank c then some s else ofKey? s.stack members c
  | .colon members key =>
    if isBlank c then some s
    else if c = ':' then some ⟨.object members key :: s.stack, .value⟩
    else none
  | .quoted members? raw isMarked =>
    if isMarked then some ⟨s.stack, .quoted members? (raw ++ [c]) false⟩
    else if c = '"' then unquote? s.stack members? raw
    else some ⟨s.stack, .quoted members? (raw ++ [c]) (c = '\\')⟩
  | .word cs =>
    if isWordChar c then some ⟨s.stack, .word (cs ++ [c])⟩
    else (Value.ofWord? cs).bind (after? s.stack · c)
  | .done value => after? s.stack value c

def run (s : State) (text : List Char) : Option State := text.foldlM step s

/-- The value that was read, if nothing is open. -/
def value? : State → Option Value
  | ⟨[], .done value⟩ => some value
  | ⟨[], .word cs⟩ => Value.ofWord? cs
  | _ => none

@[simp] theorem run_nil (s : State) : s.run [] = some s := rfl

@[simp] theorem run_cons (s : State) (c : Char) (cs : List Char) :
    s.run (c :: cs) = (s.step c).bind (·.run cs) := rfl

theorem run_append (s : State) (xs ys : List Char) : s.run (xs ++ ys) = (s.run xs).bind (·.run ys) :=
  List.foldlM_append

end State

/-- The value of a JSON text. -/
def read? (text : String) : Option Value := (State.run ⟨[], .value⟩ text.toList).bind State.value?

end Timeline.Json
