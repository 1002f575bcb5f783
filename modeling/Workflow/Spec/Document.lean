import Workflow.Spec.Config
import Workflow.Spec.Scalar

/-! Specifications: naming fields, the names of steps, and the edges between names. An edge is
direct, or a group of branches under one condition. -/

namespace Workflow.Spec

def startName : Text := "__start__"
def endName : Text := "__end__"

inductive Entry where
  | direct (source target : Text)
  | branch (source condition : Text) (paths : List Text)
  deriving DecidableEq, Repr

structure Document where
  config : Config
  nodes : List Text
  edges : List Entry
  deriving DecidableEq, Repr

namespace Entry

variable [Host]

def source : Entry → Text
  | .direct source _ => source
  | .branch source _ _ => source

def toJson : Entry → Json
  | .direct source target => .object [("from", .text source), ("to", .text target)]
  | .branch source condition paths =>
    .object [("from", .text source), ("condition", .text condition), ("paths", Json.texts paths)]

def lines : Entry → Except Yaml.Error (List Text)
  | .direct source target => do
    let source ← Scalar.write false source
    let target ← Scalar.write false target
    return ["  - from: " ++ source, "    to: " ++ target]
  | .branch source condition paths => do
    let source ← Scalar.write false source
    let paths ← paths.mapM (Scalar.write true)
    let condition ← Scalar.write false condition
    return ["  - from: " ++ source, "    condition: " ++ condition,
      "    paths: [" ++ Text.intercalate ", " paths ++ "]"]

end Entry

namespace Document

variable [Host]

def header (extension : Text) : List Text :=
  ["# This YAML was auto-generated based on an architecture",
    "# designed in LangGraph Builder (https://build.langchain.com).",
    "#",
    "# The YAML was used by langgraph-gen (https://github.com/langchain-ai/langgraph-gen-py)",
    "# to generate a code stub for a LangGraph application that follows the architecture.",
    "#",
    "# langgraph-gen is an open source CLI tool that converts YAML specifications into LangGraph code stubs.",
    "#",
    "# The code stub generated from this YAML can be found in stub" ++ extension ++ ".",
    "#",
    "# A placeholder implementation for the generated stub can be found in implementation" ++
      extension ++ ".",
    ""]

def nodeLine (name : Text) : Except Yaml.Error Text :=
  (Scalar.write false name).map ("  - name: " ++ ·)

def fieldLine (field : Text × Text) : Except Yaml.Error Text :=
  (Scalar.write false field.2).map fun value => field.1 ++ ": " ++ value

def body (fields : Table Text) (nodes : List Text) (edges : List Entry) :
    Except Yaml.Error (List Text) := do
  let fields ← fields.mapM fieldLine
  let nodes ← nodes.mapM nodeLine
  let edges ← edges.mapM Entry.lines
  return fields ++ ("nodes:" : Text) :: nodes ++ ("edges:" : Text) :: edges.flatten

/-- The header names files of the given language, or else of the configured one. -/
def headerWord (config : Config) (language : Option Text) : Text :=
  match language with
  | some word => if word = "" then config.language.word else word
  | none => config.language.word

def text (document : Document) (language : Option Text) : Except Yaml.Error Text :=
  (body document.config.entries document.nodes document.edges).map fun lines =>
    Text.intercalate "\n"
      (header (Language.extension (headerWord document.config language)) ++ lines)

/-- The text with another language in place of the configured one, be it known or not. -/
def textIn (document : Document) (language : Text) : Except Yaml.Error Text :=
  (body (Table.put "language" language document.config.entries) document.nodes
    document.edges).map fun lines =>
    Text.intercalate "\n" (header (Language.extension language) ++ lines)

def toJson (document : Document) : Json :=
  .object [("config", document.config.toJson),
    ("nodes", .array (document.nodes.map fun name => .object [("name", .text name)])),
    ("edges", .array (document.edges.map Entry.toJson))]

end Document

end Workflow.Spec
