import Workflow.Check.Field

/-! Templates that the code generation service offers. -/

namespace Workflow.Codegen

structure Template where
  name : Text
  path : Text
  language : Text
  templateType : Text
  content : Text
  deriving DecidableEq, Repr

namespace Template

def toJson (template : Template) : Json :=
  .object [("name", .text template.name), ("path", .text template.path),
    ("language", .text template.language), ("template_type", .text template.templateType),
    ("content", .text template.content)]

def ofFields (fields : Table Json) : Checked Template :=
  .ok Template.mk
    |> Checked.arg (Check.required "name" Check.text fields)
    |> Checked.arg (Check.withDefault "path" ("" : Text) Check.text fields)
    |> Checked.arg (Check.required "language" Check.text fields)
    |> Checked.arg (Check.required "template_type" Check.text fields)
    |> Checked.arg (Check.withDefault "content" ("" : Text) Check.text fields)

def ofJson (value : Json) : Checked Template :=
  match Check.fields .modelType value with
  | .ok fields => ofFields fields
  | .error issues => .error issues

def insert (organized : Table (Table (List Text))) (template : Template) :
    Table (Table (List Text)) :=
  let types := (organized.get? template.language).getD []
  let names := (types.get? template.templateType).getD []
  organized.put template.language (types.put template.templateType (names ++ [template.name]))

/-- Names by language and kind of file; the two known languages always come first. -/
def organize (templates : List Template) : Table (Table (List Text)) :=
  templates.foldl insert [("python", []), ("typescript", [])]

end Template

end Workflow.Codegen
