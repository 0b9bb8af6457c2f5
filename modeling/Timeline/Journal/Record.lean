/-! Log records.

A record says what happened, how much it matters, and which component noticed. A threshold
says down to which level records are wanted. -/
namespace Timeline.Journal

inductive Level where
  | error
  | warn
  | info
  | debug
  | trace
deriving DecidableEq, Repr

inductive Threshold where
  | off
  | error
  | warn
  | info
  | debug
  | trace
deriving DecidableEq, Repr

/-- More important levels have lower ranks. -/
def Level.rank : Level → Nat
  | error => 1
  | warn => 2
  | info => 3
  | debug => 4
  | trace => 5

def Threshold.rank : Threshold → Nat
  | off => 0
  | error => 1
  | warn => 2
  | info => 3
  | debug => 4
  | trace => 5

/-- Whether records of a level are wanted. -/
def Level.within (level : Level) (threshold : Threshold) : Bool := level.rank ≤ threshold.rank

/-- The word in front of a record's text. -/
def Level.label : Level → String
  | error => "error"
  | warn => "warning"
  | info => "info"
  | debug => "debug"
  | trace => "trace"

/-- The program, as it names itself. -/
def programName : String := "keyframes2json"

structure Record where
  level : Level
  /-- The component, as a path from the program or library that it belongs to. -/
  component : String
  file : String
  line : Nat
  message : String
deriving DecidableEq, Repr

namespace Record

/-- A record of this program. -/
def own (level : Level) (message : String) : Record := ⟨level, programName, "", 0, message⟩

/-- Whether a record comes from this program or from one of its components. -/
def isOwn (r : Record) : Bool := r.component = programName || (programName ++ "::").isPrefixOf r.component

end Record

/-- A result and the records made on the way to it, the first in front. -/
structure Logged (α : Type) where
  records : List Record
  result : α

end Timeline.Journal
