import Workflow.Graph.Run
import Workflow.Graph.Projection
import Workflow.Graph.Rebuild
import Workflow.Session.Choices
import Workflow.Session.Store

/-! Editing sessions: one graph, its naming fields and template choices, and the store in which they
are kept. Every edit is followed by writing the specification anew. -/

namespace Workflow

structure Session where
  store : Store
  config : Spec.Config
  graph : Graph
  skip : List Json
  templates : Choices
  spec : Text

namespace Session

variable [Host]

inductive Fault where
  | edit (cause : EditFault)
  | write (cause : WriteFault)
  | read (cause : Spec.ReadFault)
  | invalid (issues : List Issue)
  | shape (cause : ShapeFault)
  /-- A stored number is too long to be read. -/
  | digitLimit
  /-- A stored value is nested too deep. -/
  | tooDeep
  /-- A naming field has no encoding, so the record of them cannot be written. -/
  | unencodable
  deriving DecidableEq, Repr

def start (store : Store) (config : Spec.Config) : Session :=
  ⟨store, config, .empty, [], [], ""⟩

def keep (key value : Text) (session : Session) : Session :=
  { session with store := session.store.put key value }

def keepSpec (session : Session) : Session :=
  (session.keep Store.specKey session.spec).keep Store.labelsKey
    ((Json.textTable session.graph.conditionLabels).write .spaced)

/-- The naming fields apart from the language, which is kept by itself. -/
def configRecord (config : Spec.Config) : Json :=
  Json.textTable (config.entries.erase "language")

def keepRecord (record : Text) (session : Session) : Session :=
  (session.keep Store.configKey record).keep Store.languageKey session.config.language.word

def keepConfig (session : Session) : Session × Except Fault Unit :=
  match (configRecord session.config).dump? with
  | none => (session, .error .unencodable)
  | some record => (session.keepRecord record, .ok ())

def andThen {α : Type} (next : Session → Session × Except Fault α) :
    Session × Except Fault Unit → Session × Except Fault α
  | (session, .ok ()) => next session
  | (session, .error fault) => (session, .error fault)

def commit (session : Session) : Session × Except Fault Unit :=
  match session.graph.encode session.config none with
  | .error cause => (session, .error (.write cause))
  | .ok spec => ({ session with spec := spec }.keepSpec, .ok ())

def editing {α : Type} (edit : Graph → Graph × Except EditFault α) (session : Session) :
    Session × Except Fault α :=
  match edit session.graph with
  | (graph, .error cause) => ({ session with graph := graph }, .error (.edit cause))
  | (graph, .ok result) =>
    match { session with graph := graph }.commit with
    | (session, .ok ()) => (session, .ok result)
    | (session, .error fault) => (session, .error fault)

theorem editing_of_error {α : Type} {edit : Graph → Graph × Except EditFault α} {session : Session}
    {graph : Graph} {cause : EditFault} (made : edit session.graph = (graph, .error cause)) :
    session.editing edit = ({ session with graph := graph }, .error (.edit cause)) := by
  rw [editing, made]

theorem editing_of_ok {α : Type} {edit : Graph → Graph × Except EditFault α} {session : Session}
    {graph : Graph} {value : α} (made : edit session.graph = (graph, .ok value)) :
    session.editing edit = ((commit { session with graph := graph }).1,
      (commit { session with graph := graph }).2.map fun _ => value) := by
  rw [editing, made]
  dsimp only
  cases commit { session with graph := graph } with
  | mk after outcome => cases outcome <;> rfl

def addStep (label : Option Text) (position : Option Position) :
    Session → Session × Except Fault Node :=
  editing <| Graph.attempt (.addStep label position) fun graph =>
    let (graph, node) := graph.addStep label position
    (graph, .ok node)

def renameStep (id label : Text) : Session → Session × Except Fault Unit :=
  editing (Graph.renameNode id label)

def removeStep (id : Text) : Session → Session × Except Fault Unit :=
  editing (Graph.removeNode id)

def connect (source target : Text) : Session → Session × Except Fault Edge :=
  editing (Graph.attempt (.connect source target) (Graph.connect source target))

def disconnect (id : Text) : Session → Session × Except Fault Unit :=
  editing fun graph =>
    let (graph, result) := graph.disconnect id
    (graph, result.map fun _ => ())

def toggleBranch (id : Text) : Session → Session × Except Fault Edge :=
  editing (Graph.attempt (.toggleBranch id) (Graph.toggleBranch id))

def renameCondition (source label : Text) : Session → Session × Except Fault Unit :=
  editing (Graph.renameCondition source label)

def mergedFields (config : Spec.Config) (fields : Table Json) : Table Json :=
  fields.foldl (fun merged (key, value) => merged.put key value)
    (config.entries.map fun (key, value) => (key, Json.text value))

/-- Changes naming fields; they are kept even where the graph then cannot be written. -/
def updateConfig (fields : Table Json) (session : Session) : Session × Except Fault Unit :=
  match Spec.Config.ofFields (mergedFields session.config fields) with
  | .error issues => (session, .error (.invalid issues))
  | .ok config => { session with config := config }.keepConfig |> andThen commit

def setLanguage (language : Json) : Session → Session × Except Fault Unit :=
  updateConfig [("language", language)]

def setSkip (skip : List Json) (session : Session) : Session :=
  { session with skip := skip }.keep Store.skipKey ((Json.array skip).write .spaced)

def selectTemplate (templateType template : Text) (session : Session) : Session :=
  let choices :=
    if template = "default" then session.templates.remove (.text templateType)
    else session.templates.put (.text templateType) (.text template)
  { session with templates := choices }.keep Store.templatesKey (choices.toJson.write .spaced)

/-- Takes over the graph and the fields of a text, or nothing of it; gives the unresolved names. -/
def load (text : Text) (session : Session) : Session × Except Fault (List Text) :=
  match Graph.decode text with
  | .error cause => (session, .error (.read cause))
  | .ok decoded =>
    match decoded.graph.encode decoded.config none with
    | .error cause => (session, .error (.write cause))
    | .ok spec =>
      let loaded := { session with graph := decoded.graph, config := decoded.config, spec := spec }
      loaded.keepConfig |> andThen fun session => (session.keepSpec, .ok decoded.unresolved)

def reset (session : Session) : Session :=
  { session with
    graph := .empty
    spec := ""
    store := (session.store.delete Store.specKey).delete Store.labelsKey }

end Session

end Workflow
