/-! JSON values.

Objects keep their members in order, and a number is kept as it is written. -/
namespace Timeline.Json

inductive Value where
  | null
  | boolean (value : Bool)
  | number (literal : List Char)
  | string (text : String)
  | array (items : List Value)
  | object (members : List (String × Value))

end Timeline.Json
