import Timeline.Toml.Literal

/-! Settings files as a whole.

A document is a list of lines: headers, and keys with values. Each line is read on its own,
then all of them are put together; a line that contradicts an earlier one makes the
document malformed. -/
namespace Timeline.Toml

open Text (Reader isDigit)
open Text.Reader (char exactly finished many chars chars1 separated)

/-! ### Keys -/

def isBareKeyChar (c : Char) : Bool :=
  ('a' ≤ c && c ≤ 'z') || ('A' ≤ c && c ≤ 'Z') || isDigit c || c = '_' || c = '-'

def simpleKey : Reader String := String.ofList <$> (chars1 isBareKeyChar <|> basicString <|> literalString)

/-- Containers and keys may not nest deeper than this. -/
def deepest : Nat := 80

/-- Keys joined by points: all but the last, and the last. -/
def key : Reader (List String × String) := do
  let keys ← separated (spaces *> simpleKey <* spaces) (exactly ['.'])
  match keys.getLast? with
  | some last => if keys.length < deepest then return (keys.dropLast, last) else failure
  | none => failure

/-! ### Values -/

def comment : Reader Unit := do
  exactly ['#']
  let _ ← chars isLineChar

/-- Blanks, newlines and comments. -/
def blanks : Reader Unit := do
  let _ ← many ((do let _ ← chars1 isSpace) <|> newline <|> comment)

/-- The entries of a table in braces. -/
def tableOf (keys : List ((List String × String) × Value)) : Option Entries :=
  keys.foldlM (fun entries ((path, key), value) => addKey path key value .inline entries) []

def scalar : Reader Value :=
  (.string <$> string) <|> (do dateTime; return .dateTime) <|> (.float <$> float) <|>
    (.integer <$> integer) <|>
    (do exactly "true".toList; return .boolean true) <|> (do exactly "false".toList; return .boolean false)

def array (item : Reader Value) : Reader Value := do
  exactly ['[']
  let items ← separated (blanks *> item <* blanks) (exactly [','])
  if ! items.isEmpty then let _ ← optional (exactly [','])
  blanks
  exactly [']']
  return .array items

def table (item : Reader Value) : Reader Value := do
  exactly ['\x7b']
  let keys ← separated (do
    let k ← key
    exactly ['=']
    spaces
    let v ← item
    spaces
    return (k, v)) (exactly [','])
  spaces
  exactly ['\x7d']
  match tableOf keys with
  | some entries => return .table .inline entries
  | none => failure

/-- A value; arrays and tables in braces nest at most `depth` levels. -/
def value : Nat → Reader Value
  | 0 => scalar
  | depth + 1 => scalar <|> array (value depth) <|> table (value depth)

/-! ### Lines -/

inductive Line where
  | blank
  | entry (path : List String) (key : String) (value : Value)
  | header (path : List String) (key : String)
  | rowHeader (path : List String) (key : String)

def lineEnd : Reader Unit := newline <|> finished

/-- Nothing more on a line but blanks and a comment. -/
def trailing : Reader Unit := do
  spaces
  let _ ← optional comment
  lineEnd

def line : Reader Line :=
  (do comment; lineEnd; return .blank) <|>
  (do newline; return .blank) <|>
  (do
    exactly ['[', '[']
    let (path, last) ← key
    exactly [']', ']']
    trailing
    return .rowHeader path last) <|>
  (do
    exactly ['[']
    let (path, last) ← key
    exactly [']']
    trailing
    return .header path last) <|>
  (do
    let (path, last) ← key
    exactly ['=']
    spaces
    let v ← value (deepest - 1)
    trailing
    return .entry path last v)

def lines : Reader (List Line) := do
  spaces
  many (line <* spaces)

/-! ### Documents -/

/-- A document so far: the entries of its root, and the header that the next lines belong to. -/
structure Draft where
  entries : Entries
  here : List String

/-- A table gets its header. One that was only implied moves to the end; any other may not be there yet. -/
def openTable (key : String) (entries : Entries) : Option Entries :=
  match entries.get? key with
  | none => some (entries ++ [(key, .table .header [])])
  | some (.table .implied inner) => some (entries.filter (·.1 ≠ key) ++ [(key, .table .header inner)])
  | some _ => none

/-- One more table in a row. -/
def openRow (key : String) (entries : Entries) : Option Entries :=
  entries.update key fun
    | none => some (.tables [[]])
    | some (.tables elements) => some (.tables (elements ++ [[]]))
    | some _ => none

def Draft.add (draft : Draft) : Line → Option Draft
  | .blank => some draft
  | .entry path key value => do
    let entries ← changeAt false (addKey path key value) draft.here .header draft.entries
    return { draft with entries }
  | .header path key => do
    let entries ← changeAt false (fun _ => openTable key) path .header draft.entries
    return ⟨entries, path ++ [key]⟩
  | .rowHeader path key => do
    let entries ← changeAt false (fun _ => openRow key) path .header draft.entries
    return ⟨entries, path ++ [key]⟩

/-- Without the mark that says how a text is encoded. -/
def withoutMark : List Char → List Char
  | '\ufeff' :: rest => rest
  | cs => cs

/-- The entries of a document, if it is well-formed. -/
def parse? (text : String) : Option Entries := do
  let ls ← lines.whole? (withoutMark text.toList)
  let draft ← ls.foldlM Draft.add ⟨[], []⟩
  return draft.entries

end Timeline.Toml
