import Timeline.Path
import Timeline.Storage

/-! A file system without links.

Files and directories stand in a list under the names that lead to them from the root. A
path is walked name by name: every name but the last has to be that of a directory, and a
step up leads to the directory around the present one. -/
namespace Timeline

inductive FileEntry where
  | directory
  | file (content : ByteArray)

/-- Files are compared by their bytes. -/
instance : DecidableEq FileEntry
  | .directory, .directory => isTrue rfl
  | .directory, .file _ => isFalse nofun
  | .file _, .directory => isFalse nofun
  | .file content, .file other =>
    decidable_of_iff (content.data = other.data)
      ⟨fun h => congrArg FileEntry.file (ByteArray.ext h), fun h => congrArg ByteArray.data (FileEntry.file.inj h)⟩

structure FileSystem where
  /-- Everything but the root, which is always there. -/
  entries : List (List String × FileEntry)
  workingDirectory : List String
deriving DecidableEq

namespace FileSystem

/-- What the names lead to from the root. -/
def entry? (fs : FileSystem) (place : List String) : Option FileEntry :=
  if place = [] then some .directory else (fs.entries.find? (·.1 = place)).map Prod.snd

/-- Why no step can be taken from a place, if none can. -/
def blocked? (fs : FileSystem) (place : List String) : Option FileFault :=
  match fs.entry? place with
  | some .directory => none
  | some (.file _) => some .notADirectory
  | none => some .missing

/-- The longest name that a file may have, in bytes. -/
def longestName : Nat := 255

/-- The longest path, in bytes, the mark at its end counted. -/
def longestPath : Nat := 4096

/-- The place that a walk leads to, whether or not there is anything at its end. -/
def walk (fs : FileSystem) (place : List String) : List String → Except FileFault (List String)
  | [] => .ok place
  | step :: steps =>
    match fs.blocked? place with
    | some fault => .error fault
    | none =>
      if step = "." then walk fs place steps
      else if step = ".." then walk fs place.dropLast steps
      else if longestName < step.utf8ByteSize then .error .nameTooLong
      else walk fs (place ++ [step]) steps

/-- The steps of a path. Empty parts between slashes are no steps. -/
def steps (path : String) : List String := (Path.pieces path).map String.ofList

/-- The place that some steps of a path lead to. -/
def locate (fs : FileSystem) (path : String) (taken : List String) : Except FileFault (List String) :=
  if '\x00' ∈ path.toList then .error .nulInName
  else if path = "" then .error .missing
  else if longestPath ≤ path.utf8ByteSize then .error .nameTooLong
  else fs.walk (if path.toList.head? = some '/' then [] else fs.workingDirectory) taken

/-- Whether a path can only be that of a directory, by the slash at its end. -/
def namesDirectory (path : String) : Bool := path.toList.getLast? = some '/'

/-- The content of a file. -/
def read (fs : FileSystem) (path : String) : Except FileFault ByteArray :=
  match fs.locate path (steps path) with
  | .error fault => .error fault
  | .ok place =>
    match fs.entry? place with
    | none => .error .missing
    | some .directory => .error .isADirectory
    | some (.file content) => if namesDirectory path then .error .notADirectory else .ok content

/-- Gives a place a file with some content, in the stead of any file there. -/
def put (fs : FileSystem) (place : List String) (content : ByteArray) : FileSystem :=
  if fs.entries.any (·.1 = place) then
    { fs with entries := fs.entries.map fun e => if e.1 = place then (e.1, .file content) else e }
  else { fs with entries := fs.entries ++ [(place, .file content)] }

/-- Writes a file, in the stead of any earlier one. A write that fails changes nothing. Under
the name of a directory nothing is written, and its last name is not even looked up. -/
def write (fs : FileSystem) (path : String) (content : ByteArray) : Except FileFault FileSystem :=
  if namesDirectory path then
    match fs.locate path (steps path).dropLast with
    | .error fault => .error fault
    | .ok place => .error ((fs.blocked? place).getD .isADirectory)
  else
    match fs.locate path (steps path) with
    | .error fault => .error fault
    | .ok place =>
      if fs.entry? place = some .directory then .error .isADirectory else .ok (fs.put place content)

instance : Storage FileSystem := ⟨read, write⟩

end FileSystem

end Timeline
