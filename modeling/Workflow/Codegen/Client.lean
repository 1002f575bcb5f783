import Workflow.Codegen.Address
import Workflow.Codegen.Request
import Workflow.Codegen.Template
import Workflow.Json.Reader

/-! Talking to the code generation service: what is sent, and what an answer comes to. -/

namespace Workflow.Codegen

/-- What came back for a call. -/
inductive Outcome where
  /-- No answer at all, with the reason. -/
  | unreachable (reason : Text)
  | answered (status : Int) (body : List UInt8)
  deriving DecidableEq, Repr

structure Call where
  method : Text
  address : Text
  body : Option Json

inductive Fault where
  | generationStatus (status : Int)
  | listingStatus (status : Int)
  | unreachable (base reason : Text)
  | invalidJson
  | unexpected
  | noTemplates
  | malformedTemplate
  /-- The service itself reports an error. -/
  | reported (text : Text)
  /-- What came back is nested too deep, which is no fault of the service. -/
  | tooDeep
  deriving DecidableEq, Repr

def Fault.message? : Fault → Option Text
  | generationStatus status => some ("code generation failed with status " ++ toString status)
  | listingStatus status => some ("template listing failed with status " ++ toString status)
  | unreachable base reason => some ("Failed to connect to server at " ++ base ++ ": " ++ reason)
  | invalidJson => some "server returned invalid JSON"
  | unexpected => some "unexpected response from code generation server"
  | noTemplates => some "No templates returned from server"
  | malformedTemplate => some "server returned a malformed template entry"
  | reported text => some text
  | tooDeep => none

/-- The calls made for one request, and what it came to. -/
structure Exchange (α : Type) where
  calls : List Call
  result : Except Fault α

/-- Generated files by kind; a service may also send an empty error. -/
structure Files where
  files : Table Text
  error : Option Text
  deriving DecidableEq, Repr

namespace Files

def ofJson (value : Json) : Checked Files :=
  match Check.fields .modelType value with
  | .error issues => .error issues
  | .ok fields =>
    .ok Files.mk
      |> Checked.arg (Check.withDefault "files" [] Check.textTable fields)
      |> Checked.arg (Check.withDefault "error" none (Check.optional Check.text) fields)

def toJson (files : Files) : Json :=
  .object [("files", Json.textTable files.files),
    ("error", (files.error.map Json.text).getD .null)]

end Files

/-- A client of the service at a base address. -/
structure Client where
  base : Text
  deriving DecidableEq, Repr

namespace Client

variable [Host]

def ofAddress (address : Text) : Client := ⟨baseAddress address⟩

def isSuccess (status : Int) : Bool := decide (200 ≤ status ∧ status < 300)

def readBody (body : List UInt8) : Except Fault Json :=
  match Text.decode? body with
  | none => .error .invalidJson
  | some source =>
    match Json.read source with
    | .ok data => .ok data
    | .error .tooDeep => .error .tooDeep
    | .error .malformed | .error .digitLimit => .error .invalidJson

def received (client : Client) (onStatus : Int → Fault) : Outcome → Except Fault Json
  | .unreachable reason => .error (.unreachable client.base reason)
  | .answered status body => if isSuccess status then readBody body else .error (onStatus status)

def filesOf (data : Json) : Except Fault Files :=
  match Files.ofJson data with
  | .error _ => .error .unexpected
  | .ok files =>
    match files.error with
    | none => .ok files
    | some text => if text = "" then .ok files else .error (.reported text)

/-- Asks for code, given what would come back. A request without an encoding is not sent, and this
fault is taken for one of the answer. -/
def generate (client : Client) (request : Request) (outcome : Outcome) : Exchange Files :=
  if request.payload.isEncodable then
    { calls := [⟨"POST", client.base ++ "/generate", some request.payload⟩]
      result :=
        match client.received .generationStatus outcome with
        | .error fault => .error fault
        | .ok data => filesOf data }
  else ⟨[], .error .invalidJson⟩

def templatesOf (data : Json) : Except Fault (List Template) :=
  match data.get? "templates" with
  | some (.array items) =>
    match items.mapM Template.ofJson with
    | .ok templates => .ok templates
    | .error _ => .error .malformedTemplate
  | _ => .error .noTemplates

def listTemplates (client : Client) (outcome : Outcome) : Exchange (List Template) where
  calls := [⟨"GET", client.base ++ "/templates", none⟩]
  result :=
    match client.received .listingStatus outcome with
    | .error fault => .error fault
    | .ok data => templatesOf data

end Client

end Workflow.Codegen
