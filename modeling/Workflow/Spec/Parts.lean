import Workflow.Check.Issue
import Workflow.Spec.Document
import Workflow.Yaml.Value.Display

/-! The parts of a specification as values of a markup: names, nodes and edges. -/

namespace Workflow.Spec.Parts

open Yaml (Value Collections)

variable [Host]

/-- A name is any value but the null value, a list or a mapping, given as its text. -/
def name (collections : Collections) (value : Value) : Checked Text :=
  match value with
  | .null | .list _ | .dict _ => .problem .stringType
  | value =>
    match Value.display collections value with
    | .ok text => .ok text
    | .error _ => .problem (.valueError Numeral.tooLong)

def required (collections : Collections) (key : Text) (entries : List (Value × Value)) : Checked Text :=
  Checked.under key <|
    match Value.fieldOf? key entries with
    | some value => name collections value
    | none => .problem .missing

def sourceName (collections : Collections) (entries : List (Value × Value)) : Checked Text :=
  if (Value.fieldOf? "from" entries).isNone && (Value.fieldOf? "from_" entries).isSome then
    required collections "from_" entries
  else required collections "from" entries

def paths (collections : Collections) (entries : List (Value × Value)) : Checked (List Text) :=
  Checked.under "paths" <|
    match Value.fieldOf? "paths" entries with
    | some (.list id) => Checked.items (name collections) (collections.itemsOf id)
    | some _ => .problem .listType
    | none => .problem .missing

def directEntry (collections : Collections) (entries : List (Value × Value)) : Checked Entry :=
  .ok Entry.direct
    |> Checked.arg (sourceName collections entries)
    |> Checked.arg (required collections "to" entries)

def branchEntry (collections : Collections) (entries : List (Value × Value)) : Checked Entry :=
  .ok Entry.branch
    |> Checked.arg (sourceName collections entries)
    |> Checked.arg (required collections "condition" entries)
    |> Checked.arg (paths collections entries)

def node (collections : Collections) (value : Value) : Checked Text :=
  match value with
  | .dict id => required collections "name" (collections.entriesOf id)
  | _ => .problem .modelType

end Workflow.Spec.Parts
