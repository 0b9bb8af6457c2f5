import Timeline.Text.Fields

/-! Paths, as text and as a way to walk.

A path is a list of names and steps up, from the root or from wherever one stands. Its
normal form takes a step up back together with the name in front of it; at the root a
step up stays there. Nothing here looks at a file system. -/
namespace Timeline

inductive PathPart where
  | parent
  | name (name : String)
deriving DecidableEq, Repr

structure Path where
  isAbsolute : Bool
  parts : List PathPart
deriving DecidableEq, Repr

namespace Path

/-- The pieces between slashes, without empty ones. -/
def pieces (text : String) : List (List Char) := (Text.fields '/' text.toList).filter (· ≠ [])

/-- Pieces of a single point are no steps at all. -/
def partOf? (piece : List Char) : Option PathPart :=
  if piece = ['.'] then none
  else if piece = ['.', '.'] then some .parent
  else some (.name (String.ofList piece))

def ofText (text : String) : Path :=
  ⟨text.toList.head? = some '/', (pieces text).filterMap partOf?⟩

def partText : PathPart → String
  | .parent => ".."
  | .name n => n

/-- A path as text, with one slash between two parts and none at the end. -/
def text (p : Path) : String :=
  (if p.isAbsolute then "/" else "") ++ "/".intercalate (p.parts.map partText)

/-- One path and then another; an absolute path begins anew. -/
def join (base p : Path) : Path := if p.isAbsolute then p else ⟨base.isAbsolute, base.parts ++ p.parts⟩

/-- One more part on a normal path, the last part of which stands in front. -/
def push (isAbsolute : Bool) (walked : List PathPart) : PathPart → List PathPart
  | .name n => .name n :: walked
  | .parent =>
    match walked with
    | .name _ :: rest => rest
    | [] => if isAbsolute then [] else [.parent]
    | .parent :: rest => .parent :: .parent :: rest

def normalize (p : Path) : Path := ⟨p.isAbsolute, (p.parts.foldl (push p.isAbsolute) []).reverse⟩

end Path

end Timeline
