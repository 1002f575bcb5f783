import Workflow.Spec.Parts

/-! Specifications given as data. -/

namespace Workflow.Spec

open Yaml (Value Collections)

variable [Host]

namespace Parts

def kindNames : Text × Text := ("DirectSpecEdge", "BranchSpecEdge")

/-- An edge given as data fits one of two forms, the one with more parts first; if it fits neither,
the issues of both are listed. -/
def entry (collections : Collections) (value : Value) : Checked Entry :=
  let form (read : List (Value × Value) → Checked Entry) : Checked Entry :=
    match value with
    | .dict id => read (collections.entriesOf id)
    | _ => .problem .modelType
  match form (branchEntry collections), form (directEntry collections) with
  | .ok entry, _ | .error _, .ok entry => .ok entry
  | .error branch, .error direct =>
    .error (direct.map (Issue.under kindNames.1) ++ branch.map (Issue.under kindNames.2))

end Parts

namespace Document

def listField {α : Type} (key : Text) (check : Collections → Value → Checked α)
    (fields : Table Json) : Checked (List α) :=
  match fields.get? key with
  | none => .ok []
  | some field =>
    Checked.under key <|
      match Collections.ofJson .empty field with
      | (.list id, collections) =>
        Checked.items (check collections) (collections.itemsOf id)
      | _ => .problem .listType

def ofJson (data : Json) : Checked Document :=
  match data with
  | .object fields =>
    .ok Document.mk
      |> Checked.arg (Check.withDefault "config" Config.standard (Config.ofJson .modelType) fields)
      |> Checked.arg (listField "nodes" Parts.node fields)
      |> Checked.arg (listField "edges" Parts.entry fields)
  | _ => .problem .modelType

end Document

end Workflow.Spec
