import Workflow.Graph.Basic
import Workflow.Number.Notation

/-! Edits of a graph. Each gives the graph after it and its result; a refused edit leaves the graph
as far as it had got. -/

namespace Workflow

inductive EditFault where
  | unknownId (id : Text)
  | reservedNode (kind : Kind)
  | emptyCondition
  /-- A number is too long to be written into an id or a label. -/
  | longNumber
  deriving DecidableEq, Repr

namespace EditFault

def message : EditFault → Text
  | unknownId id => id
  | reservedNode kind => "cannot remove the " ++ kind.word ++ " node"
  | emptyCondition => "condition label must not be empty"
  | longNumber => Numeral.tooLong

end EditFault

namespace Graph

/-- The first number from `number` on that is free, given a bound on the taken ones. -/
def firstFree (taken : Int → Bool) : Nat → Int → Int
  | 0, number => number
  | bound + 1, number => if taken number then firstFree taken bound (number + 1) else number

/-- The least free number above the counter: of more numbers than nodes one is free. -/
def freshNodeNumber (graph : Graph) : Int :=
  firstFree (fun number => graph.hasNode (stepId number)) graph.nodes.length (graph.nodeCount + 1)

def freshEdgeNumber (graph : Graph) : Int :=
  firstFree (fun number => (graph.edge? (edgeId number)).isSome) graph.edges.length
    (graph.edgeCount + 1)

/-- Adds a step under a fresh id; without a label it is named after its number. -/
def addStep (label : Option Text) (position : Option Position) (graph : Graph) : Graph × Node :=
  let number := graph.freshNodeNumber
  let node := Node.step (stepId number) (label.getD ("Node " ++ toString number))
    (position.getD .origin)
  ({ graph with nodes := graph.nodes ++ [node], nodeCount := number }, node)

def relabelFirst (id label : Text) : List Node → List Node
  | [] => []
  | node :: rest =>
    if node.id == id then { node with label := label } :: rest
    else node :: relabelFirst id label rest

def renameNode (id label : Text) (graph : Graph) : Graph × Except EditFault Unit :=
  if graph.hasNode id then ({ graph with nodes := relabelFirst id label graph.nodes }, .ok ())
  else (graph, .error (.unknownId id))

def removeNode (id : Text) (graph : Graph) : Graph × Except EditFault Unit :=
  match graph.node? id with
  | none => (graph, .error (.unknownId id))
  | some node =>
    if node.isStep then
      ({ graph with
          nodes := graph.nodes.filter (·.id != id)
          edges := graph.edges.filter (!·.touches id)
          conditionLabels := graph.conditionLabels.erase id }, .ok ())
    else (graph, .error (.reservedNode node.kind))

def nextEdgeId (graph : Graph) : Graph × Text :=
  let number := graph.freshEdgeNumber
  ({ graph with edgeCount := number }, edgeId number)

/-- Adds an edge whose ends must exist; the source is looked at first. -/
def addEdge (edge : Edge) (graph : Graph) : Graph × Except EditFault Unit :=
  if !graph.hasNode edge.source then (graph, .error (.unknownId edge.source))
  else if !graph.hasNode edge.target then (graph, .error (.unknownId edge.target))
  else ({ graph with edges := graph.edges ++ [edge] }, .ok ())

def replaceFirst (edge : Edge) : List Edge → List Edge
  | [] => []
  | old :: rest => if old.id == edge.id then edge :: rest else old :: replaceFirst edge rest

def replaceEdge (edge : Edge) (graph : Graph) : Graph × Except EditFault Unit :=
  if (graph.edge? edge.id).isSome then
    ({ graph with edges := replaceFirst edge graph.edges }, .ok ())
  else (graph, .error (.unknownId edge.id))

def removeEdge (id : Text) (graph : Graph) : Graph × Except EditFault Edge :=
  match graph.edge? id with
  | none => (graph, .error (.unknownId id))
  | some edge => ({ graph with edges := graph.edges.filter (·.id != id) }, .ok edge)

def labelOf (id : Text) (graph : Graph) : Except EditFault Text :=
  match graph.node? id with
  | none => .error (.unknownId id)
  | some node => .ok node.label

end Graph

end Workflow
