import Workflow.Check.Field
import Workflow.Graph.Violation

/-! Graphs as data and from data. -/

namespace Workflow

namespace Position

def toJson (position : Position) : Json :=
  .object [("x", .double position.x), ("y", .double position.y)]

/-- Fields beyond the two are ignored. -/
def ofJson (otherwise : Problem) (value : Json) : Checked Position :=
  match Check.fields otherwise value with
  | .error issues => .error issues
  | .ok fields =>
    .ok Position.mk
      |> Checked.arg (Check.withDefault "x" (.zero false) Check.double fields)
      |> Checked.arg (Check.withDefault "y" (.zero false) Check.double fields)

end Position

namespace Check

/-- A value of one of several forms, told apart by the word under `kind`. -/
def tagged {α : Type} (forms : List (Text × (Table Json → Checked α))) (value : Json) :
    Checked α :=
  match value with
  | .object fields =>
    match Table.get? "kind" fields with
    | none => .problem .unionTagNotFound
    | some (.text word) =>
      match forms.lookup word with
      | some form => Checked.under word (form fields)
      | none => .problem .unionTagInvalid
    | some _ => .problem .unionTagInvalid
  | _ => .problem .modelAttributesType

end Check

namespace Node

def keys : List Text := ["kind", "node_id", "label", "position"]

def toJson (node : Node) : Json :=
  .object [("kind", .text node.kind.word), ("node_id", .text node.id), ("label", .text node.label),
    ("position", node.position.toJson)]

def reservedFields (otherwise : Problem) (standard : Node) (fields : Table Json) : Checked Node :=
  .ok (Node.mk standard.kind)
    |> Checked.arg (Check.withDefault "node_id" standard.id Check.text fields)
    |> Checked.arg (Check.withDefault "label" standard.label Check.text fields)
    |> Checked.arg
      (Check.withDefault "position" standard.position (Position.ofJson otherwise) fields)
    |> Checked.also (Check.noOthers keys fields)

def stepFields (otherwise : Problem) (fields : Table Json) : Checked Node :=
  .ok (Node.mk .step)
    |> Checked.arg (Check.required "node_id" Check.text fields)
    |> Checked.arg (Check.required "label" Check.text fields)
    |> Checked.arg (Check.withDefault "position" .origin (Position.ofJson otherwise) fields)
    |> Checked.also (Check.noOthers keys fields)

def ofJson (otherwise : Problem) : Json → Checked Node :=
  Check.tagged
    [("entry", reservedFields otherwise .entry), ("terminal", reservedFields otherwise .terminal),
      ("step", stepFields otherwise)]

end Node

namespace Edge

def toJson (edge : Edge) : Json :=
  match edge.condition with
  | none =>
    .object [("kind", .text "direct"), ("edge_id", .text edge.id), ("source", .text edge.source),
      ("target", .text edge.target)]
  | some condition =>
    .object [("kind", .text "branch"), ("edge_id", .text edge.id), ("source", .text edge.source),
      ("target", .text edge.target), ("condition", .text condition)]

def directFields (fields : Table Json) : Checked Edge :=
  .ok Edge.direct
    |> Checked.arg (Check.required "edge_id" Check.text fields)
    |> Checked.arg (Check.required "source" Check.text fields)
    |> Checked.arg (Check.required "target" Check.text fields)
    |> Checked.also (Check.noOthers ["kind", "edge_id", "source", "target"] fields)

def branchFields (fields : Table Json) : Checked Edge :=
  .ok Edge.branch
    |> Checked.arg (Check.required "edge_id" Check.text fields)
    |> Checked.arg (Check.required "source" Check.text fields)
    |> Checked.arg (Check.required "target" Check.text fields)
    |> Checked.arg (Check.required "condition" Check.text fields)
    |> Checked.also (Check.noOthers ["kind", "edge_id", "source", "target", "condition"] fields)

def ofJson : Json → Checked Edge :=
  Check.tagged [("direct", directFields), ("branch", branchFields)]

end Edge

namespace Graph

def keys : List Text :=
  ["nodes", "edges", "condition_labels", "conditional_group_count", "node_count", "edge_count"]

def toJson (graph : Graph) : Json :=
  .object [("nodes", .array (graph.nodes.map Node.toJson)),
    ("edges", .array (graph.edges.map Edge.toJson)),
    ("condition_labels", Json.textTable graph.conditionLabels),
    ("conditional_group_count", .int graph.groupCount), ("node_count", .int graph.nodeCount),
    ("edge_count", .int graph.edgeCount)]

/-- A graph is made with exactly one node of each reserved kind. -/
def withReserved (graph : Graph) : Checked Graph :=
  let refuse (kind : Kind) : Checked Graph :=
    .problem (.valueError (Violation.reservedCountText kind (graph.ofKind kind).length))
  if (graph.ofKind .entry).length ≠ 1 then refuse .entry
  else if (graph.ofKind .terminal).length ≠ 1 then refuse .terminal
  else .ok graph

def ofFields (otherwise : Problem) (fields : Table Json) : Checked Graph :=
  .ok Graph.mk
    |> Checked.arg (Check.required "nodes" (Check.list (Node.ofJson otherwise)) fields)
    |> Checked.arg (Check.withDefault "edges" [] (Check.list Edge.ofJson) fields)
    |> Checked.arg (Check.withDefault "condition_labels" [] Check.textTable fields)
    |> Checked.arg (Check.withDefault "conditional_group_count" 0 Check.int fields)
    |> Checked.arg (Check.withDefault "node_count" 0 Check.int fields)
    |> Checked.arg (Check.withDefault "edge_count" 0 Check.int fields)
    |> Checked.also (Check.noOthers keys fields)

def ofJson (otherwise : Problem) (value : Json) : Checked Graph :=
  match Check.fields otherwise value with
  | .error issues => .error issues
  | .ok fields =>
    match ofFields otherwise fields with
    | .ok graph => graph.withReserved
    | .error issues => .error issues

end Graph

end Workflow
