import Timeline.Command.Run

/-! The program: a host that is the real one, and the run on it. -/
namespace Timeline

open Journal (Event Logger)

/-- The real file system, and a logger that prints to standard error. -/
abbrev Process := StateT Logger IO

namespace Process

/-- What the system answers, with the number it gives for it. -/
def fault (e : IO.Error) : FileFault :=
  match e with
  | .noFileOrDirectory .. => .missing
  | .inappropriateType _ 20 _ => .notADirectory
  | .inappropriateType _ 21 _ => .isADirectory
  | .permissionDenied _ code details | .resourceExhausted _ code details | .inappropriateType _ code details
  | .invalidArgument _ code details => .other s!"{details} (os error {code})"
  | e => .other (toString e)

def send (event : Event) : Process Unit := do
  let (logger, lines) := (← get).step event
  set logger
  for line in lines do IO.eprintln line

instance : Host Process where
  readText path := do
    try
      return decode (← IO.FS.readBinFile path)
    catch e => return .error (fault e)
  writeFile path content := do
    try
      IO.FS.writeBinFile path content
      return .ok ()
    catch e => return .error (fault e)
  log r := send (.record r)
  setThreshold t := send (.setThreshold t)

end Process

end Timeline

open Timeline in
def main (arguments : List String) : IO UInt32 := do
  let executable ← IO.appPath
  let directory := (executable.parent.getD executable).toString
  let environment : Command.Environment := ⟨directory, (← IO.currentDir).toString⟩
  let (ending, _) ← (Command.run environment arguments : Process _).run Journal.Logger.initial
  match ending with
  | .misused e => IO.eprintln s!"error: {e.message}"
  | _ => IO.print ending.output
  return ending.exitCode.toUInt32
