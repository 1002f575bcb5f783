import Workflow.Codegen.Client
import Workflow.Session.Basic

/-! Requests for code from a session, in its language or in another one. -/

namespace Workflow.Session

variable [Host]

def keyPlace : Json → Text
  | .text value => value
  | .bool value => if value then "1" else "0"
  | .null => "None"
  | .double value => value.text
  | value => value.fieldName

def checkedChoice (choice : Json × Json) : Checked (Text × Text) :=
  Checked.under (keyPlace choice.1) <|
    .ok Prod.mk
      |> Checked.arg (Checked.under "[key]" (Check.text choice.1))
      |> Checked.arg (Check.text choice.2)

def checkedChoices (choices : Choices) : Checked (Table Text) :=
  choices.foldr (fun choice rest => Checked.cons (checkedChoice choice) rest) (.ok [])

def checkedSkip (skip : List Json) : Checked (Option (List Text)) :=
  if skip.isEmpty then .ok none
  else (Checked.under "skip" (Checked.items Check.text skip)).map some

def encodeFor (session : Session) (language : Option Text) : Except WriteFault Text :=
  match language with
  | none => session.graph.encode session.config none
  | some word => session.graph.encodeIn session.config word

/-- The request for the graph. The specification is written before anything else is checked. -/
def request (language : Option Text) (session : Session) : Except Fault Codegen.Request :=
  match session.encodeFor language with
  | .error cause => .error (.write cause)
  | .ok spec =>
    let word := language.getD session.config.language.word
    let checked : Checked Codegen.Request :=
      .ok (Codegen.Request.mk spec)
        |> Checked.arg (Checked.under "language" (Check.oneOf Language.choices (.text word)))
        |> Checked.arg (checkedSkip session.skip)
        |> Checked.arg (Checked.under "templates" (checkedChoices session.templates))
    checked.mapError .invalid

end Workflow.Session
