import Workflow.Check.Issue
import Workflow.Graph.Edit
import Workflow.Graph.Layout
import Workflow.Json.Value
import Workflow.Spec.Document

/-! Graphs from a compiled workflow: its nodes with their names and attached data, its edges, and
the routers registered for its sources. -/

namespace Workflow

namespace Compiled

structure Step where
  id : Text
  name : Option Json
  metadata : Option Json

structure Link where
  source : Text
  target : Text
  conditional : Bool

end Compiled

structure Compiled where
  nodes : List Compiled.Step
  links : List Compiled.Link
  /-- The routers registered for each source; what is no mapping, as a whole or for one source, is not
  read. -/
  branches : Option (Table (Option (List Text)))

namespace Compiled

def routers (compiled : Compiled) : Table (List Text) :=
  (compiled.branches.getD []).map fun (source, names) => (source, names.getD [])

/-- The attached label, or else the name, or else the id; empty ones are passed over. -/
def Step.label (step : Step) : Json :=
  let filled (value : Option Json) : Option Json := value.filter Json.isFilled
  (filled (step.metadata.bind (Json.get? "label"))).or (filled step.name) |>.getD (.text step.id)

/-- Of nodes with the same id the last counts, at the place of the first. -/
def distinctNodes (compiled : Compiled) : List Step :=
  (Table.ofEntries (compiled.nodes.map fun node => (node.id, node))).map Prod.snd

def stepNodes (compiled : Compiled) : List Step :=
  compiled.distinctNodes.filter fun node => node.id != Spec.startName && node.id != Spec.endName

def idOf (compiled : Compiled) (name : Text) : Text :=
  if name = Spec.startName then Node.entry.id
  else if name = Spec.endName then Node.terminal.id
  else
    match compiled.stepNodes.findIdx? (·.id == name) with
    | some index => stepId (index + 1)
    | none => Node.terminal.id

/-- A label must be a text; the first one that is not is refused. -/
def steps : Nat → List (Step × Position) → Checked (List Node)
  | _, [] => .ok []
  | index, (step, position) :: rest =>
    match step.label with
    | .text label =>
      (steps (index + 1) rest).map fun others => .step (stepId (index + 1)) label position :: others
    | _ => .error [⟨["label"], .stringType⟩]

/-- The label of a group: the one it has, the first router of the source, or a new generic one. -/
def groupLabel (compiled : Compiled) (name source : Text) (graph : Graph) : Graph × Text :=
  match graph.conditionLabels.get? source with
  | some label => (graph, label)
  | none =>
    let (graph, label) :=
      match (compiled.routers.get? name).bind List.head? with
      | some router => (graph, router)
      | none =>
        ({ graph with groupCount := graph.groupCount + 1 }, genericLabel (graph.groupCount + 1))
    ({ graph with conditionLabels := graph.conditionLabels.put source label }, label)

def addLink (compiled : Compiled) (graph : Graph) (link : Link) : Graph :=
  let source := compiled.idOf link.source
  let target := compiled.idOf link.target
  let (graph, condition) :=
    if link.conditional then
      let (graph, label) := compiled.groupLabel link.source source graph
      (graph, some label)
    else (graph, none)
  let (graph, id) := graph.nextEdgeId
  (graph.addEdge ⟨id, source, target, condition⟩).1

def toGraph (compiled : Compiled) : Checked Graph :=
  let nodes := compiled.stepNodes
  (steps 0 (nodes.zip (Layout.positions nodes.length))).map fun steps =>
    let start : Graph :=
      { Graph.empty with nodes := .entry :: .terminal :: steps, nodeCount := steps.length }
    compiled.links.foldl compiled.addLink start

end Compiled

end Workflow
