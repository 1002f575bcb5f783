import Workflow.Codegen.Client
import Workflow.Graph.Check

/-! Bodies of requests to the server. Fields beyond the known ones are ignored. -/

namespace Workflow.Server

structure EncodeBody where
  graph : Graph
  config : Spec.Config
  language : Option Language
  deriving DecidableEq, Repr

structure GenerateBody where
  request : Codegen.Request
  address : Option Text
  deriving DecidableEq, Repr

def checked {α : Type} (check : Table Json → Checked α) (body : Option Json) : Checked α :=
  Checked.under "body" <|
    match body with
    | none | some .null => .problem .missing
    | some value =>
      match Check.fields .modelAttributesType value with
      | .error issues => .error issues
      | .ok fields => check fields

namespace EncodeBody

def ofFields (fields : Table Json) : Checked EncodeBody :=
  .ok EncodeBody.mk
    |> Checked.arg (Check.required "graph" (Graph.ofJson .modelAttributesType) fields)
    |> Checked.arg
      (Check.withDefault "config" .standard (Spec.Config.ofJson .modelAttributesType) fields)
    |> Checked.arg
      (Check.withDefault "language" none (Check.optional (Check.oneOf Language.choices)) fields)

end EncodeBody

def specText (fields : Table Json) : Checked Text := Check.required "spec" Check.text fields

namespace GenerateBody

/-- An empty list of unwanted kinds counts as none. -/
def make (spec : Text) (language : Language) (skip : Option (List Text))
    (templates : Table Text) (address : Option Text) : GenerateBody :=
  ⟨⟨spec, language, skip.filter (!·.isEmpty), templates⟩, address⟩

def ofFields (fields : Table Json) : Checked GenerateBody :=
  .ok make
    |> Checked.arg (specText fields)
    |> Checked.arg (Check.withDefault "language" .python (Check.oneOf Language.choices) fields)
    |> Checked.arg (Check.withDefault "skip" none (Check.optional (Check.list Check.text)) fields)
    |> Checked.arg (Check.withDefault "templates" [] Check.textTable fields)
    |> Checked.arg (Check.withDefault "server_url" none (Check.optional Check.text) fields)

end GenerateBody

end Workflow.Server
