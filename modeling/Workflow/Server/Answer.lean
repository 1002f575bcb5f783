import Workflow.Graph.Projection
import Workflow.Graph.Rebuild
import Workflow.Server.Body

/-! The server: writing and reading specifications and passing on requests for code. -/

namespace Workflow.Server

variable [Host]

structure Request where
  method : Text
  path : Text
  body : Option Json
  /-- The address of a service in the query of the request. -/
  address : Option Text

inductive Reply where
  | success (body : Json)
  /-- The request has no such form. -/
  | invalid (issues : List Issue)
  | refused (detail : Text)
  | serviceFault (detail : Text)
  | unknownPath
  | otherMethod
  /-- A fault that no route expects. -/
  | broken

namespace Reply

def status : Reply → Nat
  | success _ => 200
  | invalid _ => 422
  | refused _ => 400
  | serviceFault _ => 502
  | unknownPath => 404
  | otherMethod => 405
  | broken => 500

def detail? : Reply → Option Text
  | refused text | serviceFault text => some text
  | unknownPath => some "Not Found"
  | otherMethod => some "Method Not Allowed"
  | success _ | invalid _ | broken => none

/-- A reply as it is sent. One with a text that has no encoding cannot be. -/
def sent (reply : Reply) : Reply :=
  match reply with
  | success body => if body.isEncodable then reply else broken
  | refused detail | serviceFault detail => if detail.isEncodable then reply else broken
  | _ => reply

end Reply

/-- A reply with the calls made to the code generation service for it. -/
structure Answer where
  reply : Reply
  calls : List Codegen.Call

def Answer.sent (answer : Answer) : Answer := { answer with reply := answer.reply.sent }

inductive Route where
  | health
  | encode
  | decode
  | generate
  | templates
  deriving DecidableEq, Repr

namespace Route

def table : List (Text × Text × Route) :=
  [("/", "GET", health), ("/api/spec/encode", "POST", encode),
    ("/api/spec/decode", "POST", decode), ("/api/generate-code", "POST", generate),
    ("/api/templates", "GET", templates)]

/-- A path with slashes at its end leads to the one without them. -/
def barePath (path : Text) : Text :=
  let bare := Codegen.dropSlashes path
  if bare.isEmpty then path else bare

end Route

def healthBody : Json :=
  .object [("status", .text "ok"), ("version", .text "0.1.0"),
    ("codegen_server", .text Codegen.standardAddress)]

def encodeReply (body : Option Json) : Reply :=
  match checked EncodeBody.ofFields body with
  | .error issues => .invalid issues
  | .ok body =>
    match body.graph.encode body.config (body.language.map Language.word) with
    | .ok spec => .success (.object [("spec", .text spec)])
    | .error (.violation cause) => .refused cause.message
    | .error (.markup _) => .broken

def decodeReply (body : Option Json) : Reply :=
  match checked specText body with
  | .error issues => .invalid issues
  | .ok text =>
    match Graph.decode text with
    | .ok decoded =>
      .success (.object [("graph", decoded.graph.toJson), ("config", decoded.config.toJson),
        ("unresolved", Json.texts decoded.unresolved)])
    | .error fault =>
      match fault.message? with
      | some message => .refused message
      | none => .broken

def client (address : Option Text) : Codegen.Client :=
  .ofAddress ((address.filter (!·.isEmpty)).getD Codegen.standardAddress)

def ofExchange {α : Type} (toJson : α → Json) (exchange : Codegen.Exchange α) : Answer where
  reply :=
    match exchange.result with
    | .ok value => .success (toJson value)
    | .error fault =>
      match fault.message? with
      | some message => .serviceFault message
      | none => .broken
  calls := exchange.calls

def generateAnswer (outcome : Codegen.Outcome) (body : Option Json) : Answer :=
  match checked GenerateBody.ofFields body with
  | .error issues => ⟨.invalid issues, []⟩
  | .ok body =>
    ofExchange (fun files => .object [("files", Json.textTable files.files)])
      ((client body.address).generate body.request outcome)

def templatesAnswer (outcome : Codegen.Outcome) (address : Option Text) : Answer :=
  ofExchange
    (fun templates => .object [("templates", .array (templates.map Codegen.Template.toJson))])
    ((client address).listTemplates outcome)

def answerRoute (outcome : Codegen.Outcome) (request : Request) : Route → Answer
  | .health => ⟨.success healthBody, []⟩
  | .encode => ⟨encodeReply request.body, []⟩
  | .decode => ⟨decodeReply request.body, []⟩
  | .generate => generateAnswer outcome request.body
  | .templates => templatesAnswer outcome request.address

def answer (outcome : Codegen.Outcome) (request : Request) : Answer :=
  match Route.table.lookup (Route.barePath request.path) with
  | none => ⟨.unknownPath, []⟩
  | some (method, route) =>
    if request.method = method then (answerRoute outcome request route).sent else ⟨.otherMethod, []⟩

end Workflow.Server
