import Workflow.Number.Binary64
import Workflow.Table

/-! Values of the interchange format. Whole numbers are unbounded and apart from doubles; the keys
of an object keep their order. -/

namespace Workflow

inductive Json where
  | null
  | bool (value : Bool)
  | int (value : Int)
  | double (value : Binary64)
  | text (value : Text)
  | array (items : List Json)
  | object (fields : List (Text × Json))
  deriving Inhabited

namespace Json

def get? (key : Text) : Json → Option Json
  | .object fields => Table.get? key fields
  | _ => none

def text? : Json → Option Text
  | .text value => some value
  | _ => none

/-- Empty and zero values count as no value where a value is optional. -/
def isFilled : Json → Bool
  | .null => false
  | .bool value => value
  | .int value => value != 0
  | .double value => !value.equalsInt 0
  | .text value => value != ""
  | .array items => !items.isEmpty
  | .object fields => !fields.isEmpty

mutual

def isEncodable : Json → Bool
  | .text value => value.isEncodable
  | .array items => itemsEncodable items
  | .object fields => fieldsEncodable fields
  | _ => true

def itemsEncodable : List Json → Bool
  | [] => true
  | item :: rest => item.isEncodable && itemsEncodable rest

def fieldsEncodable : List (Text × Json) → Bool
  | [] => true
  | (key, value) :: rest => key.isEncodable && value.isEncodable && fieldsEncodable rest

end

@[simp] theorem isEncodable_text {value : Text} : (text value).isEncodable = value.isEncodable := by
  rw [isEncodable]

@[simp] theorem isEncodable_int {value : Int} : (int value).isEncodable = true := by
  simp [isEncodable]

@[simp] theorem isEncodable_double {value : Binary64} : (double value).isEncodable = true := by
  simp [isEncodable]

@[simp] theorem isEncodable_array {items : List Json} :
    (array items).isEncodable = true ↔ ∀ item ∈ items, item.isEncodable = true := by
  rw [isEncodable]
  induction items with
  | nil => simp [itemsEncodable]
  | cons item rest ih => simp [itemsEncodable, ih]

@[simp] theorem isEncodable_object {fields : List (Text × Json)} :
    (object fields).isEncodable = true ↔
      ∀ field ∈ fields, field.1.isEncodable = true ∧ field.2.isEncodable = true := by
  rw [isEncodable]
  induction fields with
  | nil => simp [fieldsEncodable]
  | cons field rest ih => simp [fieldsEncodable, ih]

def texts (values : List Text) : Json := .array (values.map .text)

def textTable (table : Table Text) : Json :=
  .object (table.map fun entry => (entry.1, .text entry.2))

end Json

end Workflow
