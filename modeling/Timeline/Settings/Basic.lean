import Timeline.Animation.Animations
import Timeline.Failure
import Timeline.Journal.Record
import Timeline.Path

/-! What can be set for a run, and the paths of a run. -/
namespace Timeline

open Animation (DuplicateNames)
open Journal (Threshold)

/-- Where relative paths of the command line begin. -/
inductive ResolveFrom where
  | executable
  | workingDirectory
deriving DecidableEq, Repr

namespace ResolveFrom

def word : ResolveFrom → String
  | executable => "executable"
  | workingDirectory => "working-dir"

def all : List ResolveFrom := [executable, workingDirectory]

end ResolveFrom

/-- Options of the conversion itself. -/
structure ConvertOptions where
  duplicateNames : DuplicateNames
  isPretty : Bool
deriving DecidableEq, Repr

/-- What a settings file can say. -/
structure Settings where
  duplicateNames : DuplicateNames
  isPretty : Bool
  resolveFrom : ResolveFrom
  logLevel : Option Threshold
deriving DecidableEq, Repr

namespace Settings

/-- What holds where nothing is set. -/
def standard : Settings := ⟨.concatenate, false, .executable, none⟩

def options (s : Settings) : ConvertOptions := ⟨s.duplicateNames, s.isPretty⟩

end Settings

/-! ### Paths of a run -/

structure PathPair where
  input : String
  output : String
deriving DecidableEq, Repr

namespace PathPair

def hasExtension (extension path : String) : Bool := extension.toList.isSuffixOf path.toList

/-- A path from a base, in normal form. -/
def place (base path : String) : String := ((Path.ofText base).join (Path.ofText path)).normalize.text

/-- Both paths from a base. Their extensions have to be right, the one of the input first. -/
def resolve (input output base : String) : Except ArgumentError PathPair :=
  if ! hasExtension ".css" (place base input) then .error (.inputExtension (place base input))
  else if ! hasExtension ".json" (place base output) then .error (.outputExtension (place base output))
  else .ok ⟨place base input, place base output⟩

end PathPair

/-- Everything that one conversion needs. -/
structure RunConfig where
  paths : PathPair
  options : ConvertOptions
deriving DecidableEq, Repr

end Timeline
