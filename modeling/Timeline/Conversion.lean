import Timeline.FileSystem
import Timeline.Journal.Logger
import Timeline.Settings.Basic
import Timeline.Sheet.Reader
import Timeline.Validation

/-! Converting stylesheets.

`convert` turns a text into animations. A pipeline does the same from file to file, one
stage after the other, so that nothing is written before every other stage has succeeded.
What a pipeline needs from its surroundings is a `Host`; a session is the host that is a
value, with what keeps the files and the events that were logged. -/
namespace Timeline

open Animation (Animations)
open Journal (Event Level Logged Record Threshold)
open Sheet (KeyframesRule Rule Stylesheet)

/-! ### Texts -/

/-- The record of a keyframes rule that was read. -/
def Sheet.KeyframesRule.record (rule : KeyframesRule) : Record :=
  let keyword := rule.vendor.getD "" ++ "keyframes"
  .own .trace s!"parsed @{keyword} {Text.quoted rule.name} with {rule.blocks.length} block(s)"

/-- Reads a stylesheet, and logs every keyframes rule of it. -/
def readSheet (source : String) : Logged Stylesheet :=
  let sheet := Stylesheet.ofText source
  ⟨sheet.keyframes.map Sheet.KeyframesRule.record, sheet⟩

/-- The animations of a text. -/
def convert (source : String) (options : ConvertOptions) : Logged (Except ConvertError Animations) :=
  let sheet := readSheet source
  let valid := validate (.stylesheet sheet.result)
  match valid.result with
  | .error e => ⟨sheet.records ++ valid.records, .error (.validation e)⟩
  | .ok v =>
    let collected := Animations.collect options.duplicateNames v.sheet.keyframes
    ⟨sheet.records ++ valid.records ++ collected.records, collected.result.mapError .transform⟩

/-! ### Surroundings -/

class Host (m : Type → Type) where
  readText : String → m (Except FileFault String)
  /-- Writes a file; one that fails leaves everything as it was. -/
  writeFile : String → ByteArray → m (Except FileFault Unit)
  log : Record → m Unit
  setThreshold : Threshold → m Unit

/-- What keeps the files, and what was logged, the first event in front. -/
structure WorldOf (σ : Type) where
  files : σ
  events : List Event

abbrev World := WorldOf FileSystem

abbrev SessionOn (σ : Type) := StateM (WorldOf σ)

abbrev Session := SessionOn FileSystem

instance {σ : Type} [Storage σ] : Host (SessionOn σ) where
  readText path := return Storage.readText (← get).files path
  writeFile path content := do
    match Storage.write (← get).files path content with
    | .ok files => modify ({ · with files }); return .ok ()
    | .error fault => return .error fault
  log r := modify fun w => { w with events := w.events ++ [.record r] }
  setThreshold t := modify fun w => { w with events := w.events ++ [.setThreshold t] }

section
variable {m : Type → Type} [Monad m] [Host m]

def Host.logAll (records : List Record) : m Unit := records.forM Host.log

/-- Logs the records that led to a result. -/
def Host.report {α : Type} (logged : Logged α) : m α := do
  Host.logAll logged.records
  return logged.result

/-! ### Stages -/

inductive Stage where
  | idle
  | parsed (node : Node)
  | validated (sheet : ValidSheet)
  | transformed (animations : Animations)
  | serialized (content : ByteArray)
  | done

namespace Stage

def name : Stage → String
  | idle => "idle"
  | parsed _ => "parsed"
  | validated _ => "validated"
  | transformed _ => "transformed"
  | serialized _ => "serialized"
  | done => "done"

def isDone : Stage → Bool
  | done => true
  | _ => false

/-- How many stages lie behind a stage. -/
def rank : Stage → Nat
  | idle => 0
  | parsed _ => 1
  | validated _ => 2
  | transformed _ => 3
  | serialized _ => 4
  | done => 5

end Stage

namespace RunConfig

/-- What a stage becomes, without a word about it. -/
def next (config : RunConfig) : Stage → m (Except ConvertError Stage)
  | .idle => do
    match ← Host.readText config.paths.input with
    | .error fault => return .error (.unreadable config.paths.input fault)
    | .ok source => return .ok (.parsed (.stylesheet (← Host.report (readSheet source))))
  | .parsed node => do
    match ← Host.report (validate node) with
    | .error e => return .error (.validation e)
    | .ok sheet => return .ok (.validated sheet)
  | .validated sheet => do
    match ← Host.report (Animations.collect config.options.duplicateNames sheet.sheet.keyframes) with
    | .error e => return .error (.transform e)
    | .ok animations => return .ok (.transformed animations)
  | .transformed animations =>
    return .ok (.serialized (animations.text config.options.isPretty).toUTF8)
  | .serialized content => do
    match ← Host.writeFile config.paths.output content with
    | .error fault => return .error (.unwritable config.paths.output fault)
    | .ok () => return .ok .done
  | .done => return .ok .done

/-- The stage after a stage, with a record of its name. -/
def advance (config : RunConfig) (stage : Stage) : m (Except ConvertError Stage) := do
  match ← config.next stage with
  | .error e => return .error e
  | .ok stage =>
    Host.log (.own .debug s!"Pipeline stage: {stage.name}")
    return .ok stage

/-- Advances a number of times, or until all is done. -/
def advanceUpTo (config : RunConfig) : Nat → Stage → m (Except ConvertError Stage)
  | 0, stage => return .ok stage
  | n + 1, stage => do
    if stage.isDone then return .ok stage
    match ← config.advance stage with
    | .error e => return .error e
    | .ok stage => config.advanceUpTo n stage

/-- Every stage from the first to the last; the answer is the path of the written file. -/
def run (config : RunConfig) : m (Except ConvertError String) := do
  match ← config.advanceUpTo Stage.done.rank .idle with
  | .error e => return .error e
  | .ok _ => return .ok config.paths.output

end RunConfig

end

end Timeline
