import Timeline.Animation.Animations

/-! Arguments of the command line.

Options may stand before, between and behind the two paths; after two hyphens everything
is a path. Arguments are taken one after the other, and the first one that cannot be taken,
or that asks for something else than a conversion, decides. -/
namespace Timeline.Command

open Animation (DuplicateNames)

structure Arguments where
  input : String
  output : String
  settings : Option String
  baseDirectory : Option String
  duplicateNames : Option DuplicateNames
  isPretty : Bool
  /-- How often more records were asked for. -/
  verbosity : Nat
deriving DecidableEq, Repr

inductive UsageError where
  | unknownArgument (argument : String)
  | missingValue (option : String)
  | unexpectedValue (option : String)
  | invalidValue (option value : String)
  | repeated (option : String)
  | missingPaths
deriving DecidableEq, Repr

namespace UsageError

def message : UsageError → String
  | unknownArgument argument => s!"unexpected argument '{argument}' found"
  | missingValue option => s!"a value is required for '{option}' but none was supplied"
  | unexpectedValue option => s!"unexpected value for '{option}' found; no more were expected"
  | invalidValue option value => s!"invalid value '{value}' for '{option}'"
  | repeated option => s!"the argument '{option}' cannot be used multiple times"
  | missingPaths => "the input and the output are required"

end UsageError

/-- What the command line asks for. -/
inductive Request where
  | convert (arguments : Arguments)
  | version
  | help
deriving DecidableEq, Repr

/-! ### Options -/

inductive ValueOption where
  | settings
  | baseDirectory
  | duplicateNames
deriving DecidableEq, Repr

def ValueOption.name : ValueOption → String
  | settings => "--config"
  | baseDirectory => "--base-dir"
  | duplicateNames => "--duplicate-names"

inductive Flag where
  | pretty
  | verbose
  | version
  | help
deriving DecidableEq, Repr

def Flag.name : Flag → String
  | pretty => "--pretty"
  | verbose => "--verbose"
  | version => "--version"
  | help => "--help"

def Flag.letter? : Flag → Option Char
  | pretty => none
  | verbose => some 'v'
  | version => some 'V'
  | help => some 'h'

def ValueOption.all : List ValueOption := [settings, baseDirectory, duplicateNames]

def Flag.all : List Flag := [pretty, verbose, version, help]

/-- What one argument is, before its value is looked at. -/
inductive Word where
  /-- Two hyphens, after which there are only paths. -/
  | separator
  | flag (flag : Flag) (value : Option String)
  | valueOption (option : ValueOption) (value : Option String)
  /-- Letters behind one hyphen. -/
  | letters (letters : List Char)
  | path (path : String)
  | unknown
deriving DecidableEq, Repr

/-- The name of an option, and the value behind its equals sign. -/
def splitValue (cs : List Char) : List Char × Option (List Char) :=
  match cs.dropWhile (· ≠ '=') with
  | _ :: value => (cs.takeWhile (· ≠ '='), some value)
  | [] => (cs, none)

def Word.ofText (text : String) : Word :=
  match text.toList with
  | ['-', '-'] => .separator
  | '-' :: '-' :: _ =>
    let (name, value) := splitValue text.toList
    let value := value.map String.ofList
    match ValueOption.all.find? fun o => o.name.toList = name, Flag.all.find? fun f => f.name.toList = name with
    | some o, _ => .valueOption o value
    | none, some f => .flag f value
    | none, none => .unknown
  | '-' :: c :: cs => .letters (c :: cs)
  | _ => .path text

/-! ### Taking arguments -/

/-- What was taken so far; the paths are in order. -/
structure Draft where
  paths : List String
  settings : Option String
  baseDirectory : Option String
  duplicateNames : Option DuplicateNames
  isPretty : Bool
  verbosity : Nat
deriving DecidableEq, Repr

namespace Draft

def empty : Draft := ⟨[], none, none, none, false, 0⟩

/-- One more path: there are two of them, and neither is empty. -/
def addPath (d : Draft) (path : String) : Except UsageError Draft :=
  if 2 ≤ d.paths.length then .error (.unknownArgument path)
  else if path = "" then .error (.missingValue "path")
  else .ok { d with paths := d.paths ++ [path] }

/-- The value of an option, which has none yet. -/
def setValue (d : Draft) (option : ValueOption) (value : String) : Except UsageError Draft :=
  match option with
  | .settings =>
    if d.settings.isSome then .error (.repeated option.name)
    else if value = "" then .error (.missingValue option.name)
    else .ok { d with settings := some value }
  | .baseDirectory =>
    if d.baseDirectory.isSome then .error (.repeated option.name)
    else if value = "" then .error (.missingValue option.name)
    else .ok { d with baseDirectory := some value }
  | .duplicateNames =>
    if d.duplicateNames.isSome then .error (.repeated option.name)
    else
      match DuplicateNames.ofWord? value with
      | some policy => .ok { d with duplicateNames := some policy }
      | none => .error (.invalidValue option.name value)

/-- The arguments, once all are taken. -/
def finish (d : Draft) : Except UsageError Arguments :=
  match d.paths with
  | [input, output] =>
    .ok ⟨input, output, d.settings, d.baseDirectory, d.duplicateNames, d.isPretty, d.verbosity⟩
  | _ => .error .missingPaths

end Draft

/-- A draft that goes on, or another request that ends the reading. -/
abbrev Progress := Except UsageError (Draft ⊕ Request)

def setFlag (d : Draft) : Flag → Progress
  | .pretty => if d.isPretty then .error (.repeated Flag.pretty.name) else .ok (.inl { d with isPretty := true })
  | .verbose => .ok (.inl { d with verbosity := d.verbosity + 1 })
  | .version => .ok (.inr .version)
  | .help => .ok (.inr .help)

/-- Flags by their letters, one after the other. -/
def setLetters (d : Draft) : List Char → Progress
  | [] => .ok (.inl d)
  | c :: cs =>
    match Flag.all.find? fun f => f.letter? = some c with
    | none => .error (.unknownArgument (String.ofList ['-', c]))
    | some f =>
      match setFlag d f with
      | .ok (.inl d) => setLetters d cs
      | other => other

/-- Takes all arguments. An option without an equals sign has the next argument as its value,
unless that is an option itself. -/
def takeAll (d : Draft) : List String → Except UsageError Request
  | [] => d.finish.map .convert
  | text :: rest =>
    match Word.ofText text with
    | .separator => do
      let d ← rest.foldlM Draft.addPath d
      d.finish.map .convert
    | .unknown => .error (.unknownArgument text)
    | .path path => do takeAll (← d.addPath path) rest
    | .letters cs => do
      match ← setLetters d cs with
      | .inl d => takeAll d rest
      | .inr request => return request
    | .flag f (some _) => .error (.unexpectedValue f.name)
    | .flag f none => do
      match ← setFlag d f with
      | .inl d => takeAll d rest
      | .inr request => return request
    | .valueOption o (some value) => do takeAll (← d.setValue o value) rest
    | .valueOption o none =>
      match rest with
      | [] => .error (.missingValue o.name)
      | next :: rest =>
        match Word.ofText next with
        | .path value => do takeAll (← d.setValue o value) rest
        | _ => .error (.missingValue o.name)

/-- What the arguments ask for. -/
def Request.ofArguments (arguments : List String) : Except UsageError Request := takeAll .empty arguments

end Timeline.Command
