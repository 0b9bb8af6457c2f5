import Timeline.Number.Written
import Timeline.Settings.Basic
import Timeline.Toml.Document

/-! Settings files.

Keys are taken in the order of the document, and the first one that cannot be taken is the
fault; what is wrong with the document's grammar comes before all of them. -/
namespace Timeline.Settings

open Animation (DuplicateNames)
open Journal (Threshold)
open Toml (Entries Value)

/-- A value in words, for a setting that is not of its type. -/
def description : Value → String
  | .string text => s!"string {Text.quoted text}"
  | .integer n => s!"integer \x60{n}\x60"
  | .float x => s!"floating point \x60{x.display}\x60"
  | .boolean b => s!"boolean \x60{b}\x60"
  | .dateTime | .table .. => "map"
  | .array _ | .tables _ => "sequence"

def boolean : Value → Except SettingsFault Bool
  | .boolean b => .ok b
  | v => .error (.notABoolean (description v))

/-- Whether a value holds nothing, as the value behind a word must. -/
def isHollow : Value → Bool
  | .table _ [] | .array [] | .tables [] => true
  | _ => false

/-- The choice that a word stands for; `same` says when a word is one of the known ones. -/
def chosen {α : Type} (same : String → String → Bool) (choices : List (String × α)) (word : String) :
    Except SettingsFault α :=
  match choices.find? fun c => same c.1 word with
  | some c => .ok c.2
  | none => .error (.unknownVariant word (choices.map Prod.fst))

/-- A choice, written as a word or as a table with the word as its only key and nothing behind it. -/
def choice {α : Type} (same : String → String → Bool) (choices : List (String × α)) :
    Value → Except SettingsFault α
  | .string word => chosen same choices word
  | .table _ [(word, inner)] => do
    let x ← chosen same choices word
    if isHollow inner then return x else throw .notAVariant
  | _ => .error .notAVariant

/-- Letters of either case are the same. -/
def sameLetters (a b : String) : Bool := a.toList.map Char.toLower = b.toList.map Char.toLower

def duplicateNamesChoices : List (String × DuplicateNames) := DuplicateNames.all.map fun d => (d.word, d)

def resolveFromChoices : List (String × ResolveFrom) := ResolveFrom.all.map fun r => (r.word, r)

def logLevelChoices : List (String × Threshold) :=
  [("OFF", .off), ("ERROR", .error), ("WARN", .warn), ("INFO", .info), ("DEBUG", .debug), ("TRACE", .trace)]

/-- The settings with one more key taken. -/
def set (settings : Settings) (key : String) (value : Value) : Except SettingsFault Settings :=
  if key = "duplicate-names" then do
    return { settings with duplicateNames := ← choice (· = ·) duplicateNamesChoices value }
  else if key = "pretty" then do
    return { settings with isPretty := ← boolean value }
  else if key = "resolve-from" then do
    return { settings with resolveFrom := ← choice (· = ·) resolveFromChoices value }
  else if key = "log-level" then do
    return { settings with logLevel := some (← choice sameLetters logLevelChoices value) }
  else throw (.unknownField key)

/-- The settings that the text of a file makes. -/
def ofText (text : String) : Except SettingsFault Settings :=
  match Toml.parse? text with
  | none => .error .malformed
  | some entries => entries.foldlM (fun settings (key, value) => settings.set key value) standard

end Timeline.Settings
