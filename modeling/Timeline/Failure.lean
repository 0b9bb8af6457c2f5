import Timeline.Sheet.Basic

/-! Why a conversion can fail, and what is said about it. -/
namespace Timeline

open Css (Diagnostic)
open Sheet (Rule Stylesheet)
open Text (Span)

/-- What a file system may answer instead of doing what is asked. -/
inductive FileFault where
  | missing
  | notADirectory
  | isADirectory
  | nameTooLong
  | nulInName
  /-- The content is no text. -/
  | notText
  /-- Anything else, in the system's own words. -/
  | other (words : String)
deriving DecidableEq, Repr

namespace FileFault

def message : FileFault → String
  | missing => "No such file or directory (os error 2)"
  | notADirectory => "Not a directory (os error 20)"
  | isADirectory => "Is a directory (os error 21)"
  | nameTooLong => "File name too long (os error 36)"
  | nulInName => "file name contained an unexpected NUL byte"
  | notText => "stream did not contain valid UTF-8"
  | other words => words

end FileFault

/-- What is wrong with a settings file. -/
inductive SettingsFault where
  /-- The text does not follow the grammar. -/
  | malformed
  | unknownField (field : String)
  /-- A word that is none of those that a setting knows. -/
  | unknownVariant (word : String) (known : List String)
  /-- A value of some other type than the truth value that is expected, in words. -/
  | notABoolean (found : String)
  /-- A value of a type that a setting with a few known words cannot have. -/
  | notAVariant
deriving DecidableEq, Repr

namespace SettingsFault

/-- Known words between backquotes: two joined by a word, more as a list. -/
def expected (words : List String) : String :=
  match words.map fun w => s!"\x60{w}\x60" with
  | [a] => s!"expected {a}"
  | [a, b] => s!"expected {a} or {b}"
  | quoted => "expected one of " ++ ", ".intercalate quoted

def fields : List String := ["duplicate-names", "pretty", "resolve-from", "log-level"]

/-- What is said about a fault; of malformed text and of types no more than that they are wrong. -/
def message : SettingsFault → String
  | malformed => "malformed text"
  | unknownField field => s!"unknown field \x60{field}\x60, {expected fields}"
  | unknownVariant word known => s!"unknown variant \x60{word}\x60, {expected known}"
  | notABoolean found => s!"invalid type: {found}, expected a boolean"
  | notAVariant => "wrong type"

end SettingsFault

/-- What is wrong with the arguments of a run. The directories that paths begin at are taken to
be known, so there is no fault of theirs. -/
inductive ArgumentError where
  | inputExtension (path : String)
  | outputExtension (path : String)
  | settingsUnreadable (path : String) (fault : FileFault)
  | settingsInvalid (path : String) (fault : SettingsFault)
deriving DecidableEq, Repr

namespace ArgumentError

def message : ArgumentError → String
  | inputExtension path => s!"argument file-in must have extension .css: {path}"
  | outputExtension path => s!"argument file-out must have extension .json: {path}"
  | settingsUnreadable path fault => s!"cannot read config file {path}: {fault.message}"
  | settingsInvalid path fault => s!"invalid config file {path}: TOML parse error: {fault.message}"

end ArgumentError

/-- What a conversion may be given: a stylesheet, or a rule on its own. -/
inductive Node where
  | stylesheet (sheet : Stylesheet)
  | rule (rule : Rule)
deriving DecidableEq, Repr

inductive NodeKind where
  | stylesheet
  | rule
deriving DecidableEq, Repr

def NodeKind.name : NodeKind → String
  | stylesheet => "StyleSheet"
  | rule => "Rule"

def Node.kind : Node → NodeKind
  | stylesheet _ => .stylesheet
  | rule _ => .rule

inductive ValidationError where
  | notAStylesheet (found : NodeKind)
  | hasDiagnostics (diagnostics : List Diagnostic)
  | noKeyframes
deriving DecidableEq, Repr

namespace ValidationError

def message : ValidationError → String
  | notAStylesheet found => s!"ast is not of type stylesheet (found {found.name})"
  | hasDiagnostics diagnostics => s!"file has {diagnostics.length} parse error(s)"
  | noKeyframes => "no keyframes rules found"

end ValidationError

inductive TransformError where
  | emptyName (span : Span)
deriving DecidableEq, Repr

namespace TransformError

def message : TransformError → String
  | emptyName span => s!"keyframes rule at {span.start.line + 1}:{span.start.column + 1} has an empty name"

end TransformError

inductive ConvertError where
  | argument (error : ArgumentError)
  | unreadable (path : String) (fault : FileFault)
  | unwritable (path : String) (fault : FileFault)
  | validation (error : ValidationError)
  | transform (error : TransformError)
deriving DecidableEq, Repr

namespace ConvertError

def message : ConvertError → String
  | argument error => error.message
  | unreadable path fault => s!"cannot read {path}: {fault.message}"
  | unwritable path fault => s!"cannot write {path}: {fault.message}"
  | validation error => error.message
  | transform error => error.message

/-- The exit code of a program that ends with this failure. -/
def exitCode : ConvertError → Nat
  | argument _ => 2
  | unreadable .. | unwritable .. => 3
  | validation _ => 4
  | transform _ => 5

end ConvertError

end Timeline
