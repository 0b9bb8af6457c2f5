import Timeline.Number.Double

/-! Values of settings files. -/
namespace Timeline.Toml

/-- How a table came to be, which decides what may still be added to it. -/
inductive TableKind where
  /-- Written in braces; nothing may be added. -/
  | inline
  /-- By its own header. -/
  | header
  /-- By the header of a table inside it. -/
  | implied
  /-- By a key with a point in it. -/
  | dotted
deriving DecidableEq, Repr

inductive Value where
  | string (text : String)
  | integer (value : Int)
  | float (value : Number.Double)
  | boolean (value : Bool)
  /-- A date, a time of day, or both; which one does not matter. -/
  | dateTime
  | array (items : List Value)
  | table (kind : TableKind) (entries : List (String × Value))
  /-- Tables in a row, each by a header of its own. -/
  | tables (elements : List (List (String × Value)))

/-- Keys and values in order. -/
abbrev Entries := List (String × Value)

/-- Changes the value of a key where it stands, or adds the key at the end; the change may be refused. -/
def Entries.update (key : String) (change : Option Value → Option Value) : Entries → Option Entries
  | [] => (change none).map fun v => [(key, v)]
  | (k, v) :: rest =>
    if k = key then (change (some v)).map fun v => (k, v) :: rest
    else (Entries.update key change rest).map ((k, v) :: ·)

def Entries.get? (key : String) (entries : Entries) : Option Value :=
  (entries.find? (·.1 = key)).map Prod.snd

/-- Changes the table that a path leads to. Tables that are missing on the way are made. A
header's path (`isDotted = false`) may go through any table but those in braces; the path of
a dotted key may not go through tables with headers. In a row of tables the last one counts. -/
def changeAt (isDotted : Bool) (change : TableKind → Entries → Option Entries) :
    List String → TableKind → Entries → Option Entries
  | [], kind, entries => change kind entries
  | key :: path, _, entries => entries.update key fun
    | none =>
      let kind : TableKind := if isDotted then .dotted else .implied
      (changeAt isDotted change path kind []).map (.table kind)
    | some (.table kind inner) =>
      if kind = .inline ∨ (isDotted ∧ kind = .header) then none
      else (changeAt isDotted change path kind inner).map (.table kind)
    | some (.tables elements) =>
      (changeAt isDotted change path .header (elements.getLast?.getD [])).map fun last =>
        .tables (elements.dropLast ++ [last])
    | some _ => none

/-- Adds a value under a key that is not there yet. Behind the path of a dotted key only
tables made by such keys are open. -/
def addKey (path : List String) (key : String) (value : Value) (kind : TableKind) (entries : Entries) :
    Option Entries :=
  changeAt true (fun kind entries =>
    if (path ≠ [] ∧ kind ≠ .dotted) ∨ (entries.get? key).isSome then none
    else some (entries ++ [(key, value)])) path kind entries

end Timeline.Toml
