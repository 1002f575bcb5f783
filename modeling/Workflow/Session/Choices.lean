import Workflow.Json.Writer

/-! Template choices as they were stored: any plain value may stand for a kind of file, and any
value for a template. -/

namespace Workflow

inductive ShapeFault where
  /-- A value of a kind that holds no parts, or that cannot be a key. -/
  | wrongKind
  /-- A part that is not a pair. -/
  | wrongLength
  deriving DecidableEq, Repr

namespace Json

/-- The parts of a value: items, characters, or keys. -/
def parts? : Json → Option (List Json)
  | .array items => some items
  | .text value => some (value.letters.map fun letter => .text ⟨[letter]⟩)
  | .object fields => some (fields.map fun field => .text field.1)
  | _ => none

def isPlain : Json → Bool
  | .array _ | .object _ => false
  | _ => true

def whole? : Json → Option Int
  | .bool value => some (if value then 1 else 0)
  | .int value => some value
  | .double value => value.toInt?
  | _ => none

/-- Equality of keys: numbers are equal by value whatever their kind. -/
def sameKey : Json → Json → Bool
  | .null, .null => true
  | .text first, .text second => first == second
  | .double first, .double second => first.sameValue second
  | first, second =>
    match first.whole?, second.whole? with
    | some m, some n => m == n
    | _, _ => false

def fieldName : Json → Text
  | .text value => value
  | value => value.write .spaced

end Json

abbrev Choices := List (Json × Json)

namespace Choices

def put (key value : Json) : Choices → Choices
  | [] => [(key, value)]
  | (known, old) :: rest =>
    if known.sameKey key then (known, value) :: rest else (known, old) :: put key value rest

def remove (key : Json) (choices : Choices) : Choices := choices.filter (!·.1.sameKey key)

def ofTable (table : Table Text) : Choices :=
  table.map fun (key, value) => (.text key, .text value)

def pairOf (part : Json) : Except ShapeFault (Json × Json) :=
  match part.parts? with
  | none => .error .wrongKind
  | some [key, value] => if key.isPlain then .ok (key, value) else .error .wrongKind
  | some _ => .error .wrongLength

def addAll (choices : Choices) : List Json → Except ShapeFault Choices
  | [] => .ok choices
  | part :: rest =>
    match pairOf part with
    | .error fault => .error fault
    | .ok (key, value) => addAll (choices.put key value) rest

/-- The choices that a stored value stands for: its fields, or a list of pairs. -/
def ofJson (value : Json) : Except ShapeFault Choices :=
  match value with
  | .object fields => .ok (fields.map fun (key, value) => (.text key, value))
  | value =>
    match value.parts? with
    | none => .error .wrongKind
    | some parts => addAll [] parts

def toJson (choices : Choices) : Json := .object (choices.map fun (key, value) => (key.fieldName, value))

end Choices

end Workflow
