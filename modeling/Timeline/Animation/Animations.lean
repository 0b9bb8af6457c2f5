import Timeline.Animation.Frame
import Timeline.Failure
import Timeline.Journal.Record
import Timeline.Text.Quoted

/-! Animations: frames under the names of keyframes rules, in the order of first use. -/
namespace Timeline.Animation

open Journal (Logged Record)
open Sheet (KeyframesRule)

/-- What becomes of a rule whose name was used before: its frames are added to the earlier
ones, or replace them. -/
inductive DuplicateNames where
  | concatenate
  | overwrite
deriving DecidableEq, Repr

namespace DuplicateNames

def word : DuplicateNames → String
  | concatenate => "concatenate"
  | overwrite => "overwrite"

/-- The name of a policy in log records. -/
def title : DuplicateNames → String
  | concatenate => "Concatenate"
  | overwrite => "Overwrite"

def all : List DuplicateNames := [concatenate, overwrite]

def ofWord? (word : String) : Option DuplicateNames := all.find? (·.word = word)

end DuplicateNames

abbrev Animations := Catalog (List Frame)

namespace Animations

/-- Adds the frames of a rule under its name. -/
def add (policy : DuplicateNames) (animations : Animations) (name : String) (frames : List Frame) : Animations :=
  animations.enter name frames fun earlier =>
    match policy with
    | .concatenate => earlier ++ frames
    | .overwrite => frames

def collectedRecord (name : String) (frames : List Frame) : Record :=
  .own .trace s!"Collected {frames.length} frame(s) for {Text.quoted name}"

def duplicateRecord (policy : DuplicateNames) (name : String) : Record :=
  .own .debug s!"Animation {Text.quoted name} is declared more than once ({policy.title})"

/-- Adds the frames of rules, one after the other, up to the first rule with an empty name. -/
def addRules (policy : DuplicateNames) (animations : Animations) :
    List KeyframesRule → Logged (Except TransformError Animations)
  | [] => ⟨[], .ok animations⟩
  | rule :: rules =>
    if rule.name = "" then ⟨[], .error (.emptyName rule.span)⟩
    else
      let frames := Frame.ofRule rule
      let repeated := if (animations.get? rule.name).isSome then [duplicateRecord policy rule.name] else []
      let more := addRules policy (add policy animations rule.name frames) rules
      ⟨collectedRecord rule.name frames :: (repeated ++ more.records), more.result⟩

/-- The animations of some keyframes rules. -/
def collect (policy : DuplicateNames) (rules : List KeyframesRule) : Logged (Except TransformError Animations) :=
  addRules policy Catalog.empty rules

def toJson (animations : Animations) : Json.Value :=
  .object (animations.entries.map fun (name, frames) => (name, Frame.listJson frames))

def text (isPretty : Bool) (animations : Animations) : String := (toJson animations).text isPretty

end Animations

end Timeline.Animation
