import Timeline.Command.Arguments
import Timeline.Conversion
import Timeline.Settings.Reader

/-! A run of the program.

The settings file is read first, because it may say which records are wanted. Then the
paths are resolved, and the pipeline runs. A run ends with an exit code, and with a line on
standard output if a file was written; everything else that is said is logged. -/
namespace Timeline.Command

open Journal (Record Threshold programName)

/-- The directories that relative paths may begin at. Both are taken to be known. A system that
cannot tell the one that is asked for is left out of account; a run would end there as it does
for other faults of its arguments, with nothing changed and with the same exit code. -/
structure Environment where
  executableDirectory : String
  workingDirectory : String
deriving DecidableEq, Repr

def Environment.base (e : Environment) : ResolveFrom → String
  | .executable => e.executableDirectory
  | .workingDirectory => e.workingDirectory

/-- Which records are wanted: asking for more on the command line overrides the settings. -/
def threshold (verbosity : Nat) (configured : Option Threshold) : Threshold :=
  match verbosity with
  | 0 => configured.getD .info
  | 1 => .debug
  | _ => .trace

namespace Arguments

/-- The options of the conversion, where the command line overrides the settings. -/
def options (a : Arguments) (settings : Settings) : ConvertOptions :=
  ⟨a.duplicateNames.getD settings.duplicateNames, settings.isPretty || a.isPretty⟩

/-- The directory that the paths begin at. -/
def base (a : Arguments) (settings : Settings) (environment : Environment) : String :=
  a.baseDirectory.getD (environment.base settings.resolveFrom)

end Arguments

inductive Ending where
  | misused (error : UsageError)
  | version
  | help
  | written (path : String)
  | failed (error : ConvertError)
deriving DecidableEq, Repr

namespace Ending

def exitCode : Ending → Nat
  | misused _ => 2
  | version | help | written _ => 0
  | failed e => e.exitCode

def versionText : String := programName ++ " 0.1.0\n"

def usageText : String :=
  s!"Usage: {programName} [OPTIONS] <INPUT> <OUTPUT>\n\n" ++
    "Options:\n" ++
    "      --config <CONFIG>                    TOML config file\n" ++
    "      --base-dir <BASE_DIR>                Resolve relative paths against this directory\n" ++
    "      --duplicate-names <DUPLICATE_NAMES>  concatenate or overwrite\n" ++
    "      --pretty                             Pretty-print the output\n" ++
    "  -v, --verbose...                         Log more\n" ++
    "  -h, --help                               Print help\n" ++
    "  -V, --version                            Print version\n"

/-- What is written to standard output. -/
def output : Ending → String
  | misused _ | failed _ => ""
  | version => versionText
  | help => usageText
  | written path => s!"success: file created at: {path}\n"

end Ending

section
variable {m : Type → Type} [Monad m] [Host m]

/-- The settings of a file, or the standard ones. -/
def loadSettings : Option String → m (Except ArgumentError Settings)
  | none => return .ok .standard
  | some path => do
    match ← Host.readText path with
    | .error fault => return .error (.settingsUnreadable path fault)
    | .ok text => return (Settings.ofText text).mapError (.settingsInvalid path)

/-- One conversion, with the paths and options that the arguments and settings make. -/
def convertFile (arguments : Arguments) (settings : Settings) (environment : Environment) :
    m (Except ConvertError String) := do
  match PathPair.resolve arguments.input arguments.output (arguments.base settings environment) with
  | .error e => return .error (.argument e)
  | .ok paths =>
    Host.log (.own .debug s!"Converting {paths.input} into {paths.output}")
    match ← RunConfig.run ⟨paths, arguments.options settings⟩ with
    | .error e => return .error e
    | .ok path =>
      Host.log (.own .debug s!"Wrote {path}")
      return .ok path

/-- A conversion from its arguments on. The threshold is set once it is known, and in any
case before anything can be said about a failure. -/
def convert (arguments : Arguments) (environment : Environment) : m (Except ConvertError String) := do
  match ← loadSettings arguments.settings with
  | .error e =>
    Host.setThreshold (threshold arguments.verbosity none)
    return .error (.argument e)
  | .ok settings =>
    Host.setThreshold (threshold arguments.verbosity settings.logLevel)
    convertFile arguments settings environment

/-- A run of the program with its arguments. -/
def run (environment : Environment) (arguments : List String) : m Ending := do
  match Request.ofArguments arguments with
  | .error e => return .misused e
  | .ok .version => return .version
  | .ok .help => return .help
  | .ok (.convert arguments) =>
    match ← convert arguments environment with
    | .ok path => return .written path
    | .error e =>
      Host.log (.own .error e.message)
      return .failed e

end

end Timeline.Command
