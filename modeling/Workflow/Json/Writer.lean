import Workflow.Json.Value
import Workflow.Number.Notation
import Workflow.Text.Quoted

/-! Values of the interchange format as text, in one of two layouts. -/

namespace Workflow.Json

structure Layout where
  comma : Text
  colon : Text
  charset : Text.Charset

def Layout.spaced : Layout := ⟨", ", ": ", .plain⟩

def Layout.compact : Layout := ⟨",", ":", .every⟩

def doubleText : Binary64 → String
  | .nan => "NaN"
  | .infinite negative => if negative then "-Infinity" else "Infinity"
  | value => value.text

mutual

def write (layout : Layout) : Json → Text
  | .null => "null"
  | .bool value => if value then "true" else "false"
  | .int value => toString value
  | .double value => doubleText value
  | .text value => Text.quoted layout.charset value
  | .array items => "[" ++ writeItems layout items ++ "]"
  | .object fields => "\x7b" ++ writeFields layout fields ++ "\x7d"

def writeItems (layout : Layout) : List Json → Text
  | [] => ""
  | [item] => write layout item
  | item :: rest => write layout item ++ layout.comma ++ writeItems layout rest

def writeFields (layout : Layout) : List (Text × Json) → Text
  | [] => ""
  | [(key, value)] => Text.quoted layout.charset key ++ layout.colon ++ write layout value
  | (key, value) :: rest =>
    Text.quoted layout.charset key ++ layout.colon ++ write layout value ++
      layout.comma ++ writeFields layout rest

end

mutual

/-- A value as the dump of a record holds it: a number that is not finite has no form there. -/
def dumped : Json → Json
  | .double value => if value.isFinite then .double value else .null
  | .array items => .array (dumpedItems items)
  | .object fields => .object (dumpedFields fields)
  | value => value

def dumpedItems : List Json → List Json
  | [] => []
  | item :: rest => item.dumped :: dumpedItems rest

def dumpedFields : List (Text × Json) → List (Text × Json)
  | [] => []
  | (key, value) :: rest => (key, value.dumped) :: dumpedFields rest

end

def dump? (record : Json) : Option Text :=
  if record.isEncodable then some (record.dumped.write .compact) else none

end Workflow.Json
