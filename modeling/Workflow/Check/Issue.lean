import Workflow.Text.Basic

/-! Problems of given data. Checking goes through all parts of a value and gathers every problem with
the path to its place. -/

namespace Workflow

inductive Problem where
  | missing
  | extraForbidden
  | stringType
  | intType
  | intParsing
  | intParsingSize
  | intFromFloat
  | finiteNumber
  | floatType
  | floatParsing
  | literalError
  | listType
  | dictType
  | modelType
  | modelAttributesType
  | unionTagInvalid
  | unionTagNotFound
  | valueError (text : Text)
  deriving DecidableEq, Repr

namespace Problem

def word : Problem → String
  | missing => "missing"
  | extraForbidden => "extra_forbidden"
  | stringType => "string_type"
  | intType => "int_type"
  | intParsing => "int_parsing"
  | intParsingSize => "int_parsing_size"
  | intFromFloat => "int_from_float"
  | finiteNumber => "finite_number"
  | floatType => "float_type"
  | floatParsing => "float_parsing"
  | literalError => "literal_error"
  | listType => "list_type"
  | dictType => "dict_type"
  | modelType => "model_type"
  | modelAttributesType => "model_attributes_type"
  | unionTagInvalid => "union_tag_invalid"
  | unionTagNotFound => "union_tag_not_found"
  | valueError _ => "value_error"

def description : Problem → Text
  | valueError text => "value_error: " ++ text
  | problem => problem.word

end Problem

structure Issue where
  path : List Text
  problem : Problem
  deriving DecidableEq, Repr

namespace Issue

def place (issue : Issue) : Text := Text.intercalate "." issue.path

def under (segment : Text) (issue : Issue) : Issue := { issue with path := segment :: issue.path }

end Issue

abbrev Checked (α : Type) := Except (List Issue) α

namespace Checked

variable {α β : Type}

def problem (problem : Problem) : Checked α := .error [⟨[], problem⟩]

def under (segment : Text) : Checked α → Checked α
  | .ok value => .ok value
  | .error issues => .error (issues.map (Issue.under segment))

/-- Gives a checked function its next argument; the issues of both are kept. -/
def arg (value : Checked α) (f : Checked (α → β)) : Checked β :=
  match f, value with
  | .ok f, .ok value => .ok (f value)
  | .ok _, .error issues => .error issues
  | .error issues, .ok _ => .error issues
  | .error issues, .error more => .error (issues ++ more)

/-- The first result, provided that the second has no issues. -/
def also (other : Checked β) (value : Checked α) : Checked α :=
  arg other (value.map fun value _ => value)

def cons (first : Checked α) (rest : Checked (List α)) : Checked (List α) :=
  arg rest (first.map List.cons)

def itemsFrom (check : α → Checked β) : Nat → List α → Checked (List β)
  | _, [] => .ok []
  | index, item :: rest =>
    cons (under (toString index) (check item)) (itemsFrom check (index + 1) rest)

def items (check : α → Checked β) (list : List α) : Checked (List β) := itemsFrom check 0 list

theorem arg_eq_ok_iff {f : Checked (α → β)} {value : Checked α} {result : β} :
    arg value f = .ok result ↔ ∃ g x, f = .ok g ∧ value = .ok x ∧ g x = result := by
  cases f <;> cases value <;> simp [arg]

end Checked

end Workflow
