import Workflow.Session.Request
import Workflow.Session.Restore

/-! What can be done in a session, as data, and runs of it. -/

namespace Workflow.Session

variable [Host]

inductive Operation where
  | addStep (label : Option Text) (position : Option Position)
  | renameStep (id label : Text)
  | removeStep (id : Text)
  | connect (source target : Text)
  | disconnect (id : Text)
  | toggleBranch (id : Text)
  | renameCondition (source label : Text)
  | updateConfig (fields : Table Json)
  | setLanguage (language : Json)
  | setSkip (skip : List Json)
  | selectTemplate (templateType template : Text)
  | request (language : Option Text)
  | load (text : Text)
  | restore
  | reset

inductive Outcome where
  | nothing
  | node (node : Node)
  | edge (edge : Edge)
  | names (names : List Text)
  | request (request : Codegen.Request)
  deriving DecidableEq, Repr

def withOutcome {α : Type} (make : α → Outcome) :
    Session × Except Fault α → Session × Except Fault Outcome
  | (session, result) => (session, result.map make)

def quietly : Session × Except Fault Unit → Session × Except Fault Outcome :=
  withOutcome fun _ => .nothing

def perform (operation : Operation) (session : Session) : Session × Except Fault Outcome :=
  match operation with
  | .addStep label position => withOutcome .node (session.addStep label position)
  | .renameStep id label => quietly (session.renameStep id label)
  | .removeStep id => quietly (session.removeStep id)
  | .connect source target => withOutcome .edge (session.connect source target)
  | .disconnect id => quietly (session.disconnect id)
  | .toggleBranch id => withOutcome .edge (session.toggleBranch id)
  | .renameCondition source label => quietly (session.renameCondition source label)
  | .updateConfig fields => quietly (session.updateConfig fields)
  | .setLanguage language => quietly (session.setLanguage language)
  | .setSkip skip => (session.setSkip skip, .ok .nothing)
  | .selectTemplate templateType template =>
    (session.selectTemplate templateType template, .ok .nothing)
  | .request language => (session, (session.request language).map .request)
  | .load text => withOutcome .names (session.load text)
  | .restore => quietly session.restore
  | .reset => (session.reset, .ok .nothing)

def run (operations : List Operation) (session : Session) : Session :=
  operations.foldl (fun session operation => (session.perform operation).1) session

def generate (client : Codegen.Client) (outcome : Codegen.Outcome) (language : Option Text)
    (session : Session) : Except Fault (Codegen.Exchange Codegen.Files) :=
  (session.request language).map fun request => client.generate request outcome

theorem run_append (first second : List Operation) (session : Session) :
    session.run (first ++ second) = (session.run first).run second := List.foldl_append

end Workflow.Session
