import Timeline.Animation.Offset
import Timeline.Catalog
import Timeline.Json.Printer
import Timeline.Sheet.Basic

/-! Frames: the properties that an animation has at an offset. -/
namespace Timeline.Animation

open Number (Double)
open Sheet (Declaration KeyframeBlock KeyframesRule)

/-- Values under the names of properties. A property keeps its first place and has its last value. -/
abbrev Properties := Catalog String

namespace Properties

def insert (properties : Properties) (property value : String) : Properties :=
  properties.enter property value fun _ => value

/-- The properties that declarations amount to, one after the other. -/
def merge (declarations : List Declaration) : Properties :=
  declarations.foldl (fun properties d => insert properties d.property d.value) Catalog.empty

end Properties

structure Frame where
  offset : Double
  properties : Properties
deriving DecidableEq

namespace Frame

/-- One frame for each selector, all with the same properties. -/
def assemble (selectors : List String) (properties : Properties) : List Frame :=
  selectors.map fun selector => ⟨Offset.ofSelector selector, properties⟩

def ofBlock (block : KeyframeBlock) : List Frame :=
  assemble block.selectors (Properties.merge block.declarations)

/-- The frames of a rule, block after block. -/
def ofRule (rule : KeyframesRule) : List Frame := rule.blocks.flatMap ofBlock

/-- An object with the offset in front. The key `offset` is taken, so a property of that name is left out. -/
def toJson (frame : Frame) : Json.Value :=
  .object (("offset", Json.ofDouble frame.offset) ::
    (frame.properties.entries.filter (·.1 ≠ "offset")).map fun (property, value) => (property, .string value))

/-- Frames in a row. -/
def listJson (frames : List Frame) : Json.Value := .array (frames.map toJson)

end Frame

end Timeline.Animation
