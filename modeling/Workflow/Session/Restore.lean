import Workflow.Json.Reader
import Workflow.Session.Basic

/-! Bringing back what a store holds: naming fields, language, choices and at last the graph. What was
brought back before a fault stays. -/

namespace Workflow.Session

variable [Host]

/-- A stored value; one that is absent, empty or unreadable counts as the given one. -/
def readStored (key : Text) (default : Json) (session : Session) : Except Fault Json :=
  match session.store.get? key with
  | none => .ok default
  | some text =>
    if text = "" then .ok default
    else
      match Json.read text with
      | .ok value => .ok value
      | .error .malformed => .ok default
      | .error .digitLimit => .error .digitLimit
      | .error .tooDeep => .error .tooDeep

/-- Known fields with a value replace the configured ones. -/
def restoreConfig (session : Session) : Session × Except Fault Unit :=
  match session.readStored Store.configKey (.object []) with
  | .error fault => (session, .error fault)
  | .ok (.object fields) =>
    let known := fields.filter fun (key, value) => Spec.Config.keys.contains key && value.isFilled
    match Spec.Config.ofFields (mergedFields session.config known) with
    | .error issues => (session, .error (.invalid issues))
    | .ok config => ({ session with config := config }, .ok ())
  | .ok _ => (session, .ok ())

def restoreLanguage (session : Session) : Session :=
  match (session.store.get? Store.languageKey).bind Language.ofWord? with
  | some language => { session with config := { session.config with language := language } }
  | none => session

def restoreSkip (session : Session) : Session × Except Fault Unit :=
  match session.readStored Store.skipKey (.array []) with
  | .error fault => (session, .error fault)
  | .ok value =>
    match value.parts? with
    | some skip => ({ session with skip := skip }, .ok ())
    | none => (session, .error (.shape .wrongKind))

def restoreTemplates (session : Session) : Session × Except Fault Unit :=
  match session.readStored Store.templatesKey (.object []) with
  | .error fault => (session, .error fault)
  | .ok value =>
    match Choices.ofJson value with
    | .ok choices => ({ session with templates := choices }, .ok ())
    | .error cause => (session, .error (.shape cause))

def isPassedOver : Fault → Bool
  | .read cause => cause.message?.isSome
  | .write (.violation _) => true
  | _ => false

def restoreSpec (session : Session) : Session × Except Fault Unit :=
  match session.store.get? Store.specKey with
  | none => (session, .ok ())
  | some text =>
    if text = "" then (session, .ok ())
    else
      match session.load text with
      | (session, .ok _) => (session, .ok ())
      | (session, .error fault) =>
        if isPassedOver fault then (session, .ok ()) else (session, .error fault)

def restore (session : Session) : Session × Except Fault Unit :=
  restoreConfig session
    |> andThen (fun session => restoreSkip session.restoreLanguage)
    |> andThen restoreTemplates
    |> andThen restoreSpec

end Workflow.Session
