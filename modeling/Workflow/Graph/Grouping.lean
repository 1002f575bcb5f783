import Workflow.Graph.Edit
import Workflow.Text.Blank

/-! Groups of branches. As soon as a source has several edges, all of them are branches under one
condition: the one its user gave, or else a generic one from the counter. -/

namespace Workflow.Graph

/-- The condition of the first branch of a source, or the label kept for it. -/
def groupLabel (source : Text) (graph : Graph) : Option Text :=
  ((graph.outgoing source).findSome? Edge.condition).or (graph.conditionLabels.get? source)

/-- The condition for the edges of a source: a label its user gave, the label of a group that
exists, or a new generic one. -/
def resolveLabel (source : Text) (graph : Graph) : Graph × Text :=
  let current := graph.groupLabel source
  let label := current.getD ""
  let isGrouped := (graph.outgoing source).any Edge.isBranch
  if !isGenericLabel current || (isGrouped && !label.isEmpty) then (graph, label)
  else ({ graph with groupCount := graph.groupCount + 1 }, genericLabel (graph.groupCount + 1))

def promote (source label : Text) (graph : Graph) : Graph :=
  let promoted := (graph.outgoing source).foldl
    (fun graph edge => (graph.replaceEdge { edge with condition := some label }).1) graph
  { promoted with conditionLabels := promoted.conditionLabels.put source label }

/-- Adds an edge, grouped with the others of its source. The counters advance even if an end of the
edge does not exist. -/
def connect (source target : Text) (graph : Graph) : Graph × Except EditFault Edge :=
  let siblings := graph.outgoing source
  let (graph, id) := graph.nextEdgeId
  let edge := Edge.direct id source target
  if siblings.isEmpty then
    match graph.addEdge edge with
    | (graph, .ok ()) => (graph, .ok edge)
    | (graph, .error fault) => (graph, .error fault)
  else
    let (graph, label) := graph.resolveLabel source
    match graph.addEdge edge with
    | (graph, .error fault) => (graph, .error fault)
    | (graph, .ok ()) =>
      let graph := graph.promote source label
      (graph, .ok ((graph.edge? id).getD edge))

def disconnect (id : Text) (graph : Graph) : Graph × Except EditFault Edge := graph.removeEdge id

def renameCondition (source label : Text) (graph : Graph) : Graph × Except EditFault Unit :=
  let label := Text.trimBlanks label
  if label.isEmpty then (graph, .error .emptyCondition)
  else if !graph.hasNode source then (graph, .error (.unknownId source))
  else
    let labelled := { graph with conditionLabels := graph.conditionLabels.put source label }
    let branches := (labelled.outgoing source).filter Edge.isBranch
    (branches.foldl
      (fun graph edge => (graph.replaceEdge { edge with condition := some label }).1) labelled, .ok ())

def toggleBranch (id : Text) (graph : Graph) : Graph × Except EditFault Edge :=
  match graph.edge? id with
  | none => (graph, .error (.unknownId id))
  | some edge =>
    if edge.isBranch then
      let toggled := { edge with condition := none }
      ((graph.replaceEdge toggled).1, .ok toggled)
    else
      let (graph, label) := graph.resolveLabel edge.source
      let toggled := { edge with condition := some label }
      let graph := { graph with conditionLabels := graph.conditionLabels.put edge.source label }
      ((graph.replaceEdge toggled).1, .ok toggled)

end Workflow.Graph
