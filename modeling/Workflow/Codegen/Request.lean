import Workflow.Spec.Config

/-! Requests for generated code. -/

namespace Workflow.Codegen

structure Request where
  spec : Text
  language : Language
  /-- Kinds of files that are not wanted. -/
  skip : Option (List Text)
  /-- The template chosen for a kind of file. -/
  templates : Table Text
  deriving DecidableEq, Repr

namespace Request

def keys : List Text := ["spec", "language", "format", "skip", "templates"]

/-- The data sent to the service; templates only where some are chosen. -/
def payload (request : Request) : Json :=
  let chosen : Table Json :=
    if request.templates.isEmpty then [] else [("templates", Json.textTable request.templates)]
  .object <|
    ("spec", .text request.spec) :: ("language", .text request.language.word) ::
      ("format", .text "yaml") :: ("skip", (request.skip.map Json.texts).getD .null) :: chosen

def ofFields (fields : Table Json) : Checked Request :=
  .ok Request.mk
    |> Checked.arg (Check.required "spec" Check.text fields)
    |> Checked.arg
      (Check.withDefault "language" .python (Check.oneOf Language.choices) fields)
    |> Checked.arg (Check.withDefault "skip" none (Check.optional (Check.list Check.text)) fields)
    |> Checked.arg (Check.withDefault "templates" [] Check.textTable fields)
    |> Checked.also (Check.withDefault "format" () (Check.oneOf [("yaml", ())]) fields)
    |> Checked.also (Check.noOthers keys fields)

def ofJson (value : Json) : Checked Request :=
  match Check.fields .modelType value with
  | .ok fields => ofFields fields
  | .error issues => .error issues

end Request

end Workflow.Codegen
