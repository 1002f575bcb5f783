import Workflow.Graph.Grouping

/-! Edits as data, and runs of them. A run goes on after a refused edit, from the graph that this one
left. An edit that draws from the counters is refused at the first number that is too long to be
written out. -/

namespace Workflow.Graph

inductive Operation where
  | addStep (label : Option Text) (position : Option Position)
  | renameNode (id label : Text)
  | removeNode (id : Text)
  | nextEdgeId
  | addEdge (edge : Edge)
  | replaceEdge (edge : Edge)
  | removeEdge (id : Text)
  | connect (source target : Text)
  | disconnect (id : Text)
  | renameCondition (source label : Text)
  | toggleBranch (id : Text)
  deriving DecidableEq, Repr

inductive Outcome where
  | nothing
  | node (node : Node)
  | edge (edge : Edge)
  | id (id : Text)
  deriving DecidableEq, Repr

def withOutcome {α : Type} (make : α → Outcome) :
    Graph × Except EditFault α → Graph × Except EditFault Outcome
  | (graph, result) => (graph, result.map make)

/-- The graph at the first number, on the way to a new id of a step, that cannot be written. -/
def stuckAtStep? (graph : Graph) : Option Graph :=
  (Numeral.firstLong? (graph.nodeCount + 1) graph.freshNodeNumber).map fun number =>
    { graph with nodeCount := number }

def stuckAtEdge? (graph : Graph) : Option Graph :=
  (Numeral.firstLong? (graph.edgeCount + 1) graph.freshEdgeNumber).map fun number =>
    { graph with edgeCount := number }

/-- The graph at a new label of a source whose number cannot be written. -/
def stuckAtLabel? (source : Text) (graph : Graph) : Option Graph :=
  let drawn := (graph.resolveLabel source).1
  if drawn.groupCount = graph.groupCount || Numeral.writable drawn.groupCount then none
  else some drawn

def Operation.stuck? (operation : Operation) (graph : Graph) : Option Graph :=
  match operation with
  | .addStep .. => graph.stuckAtStep?
  | .nextEdgeId => graph.stuckAtEdge?
  | .connect source _ =>
    graph.stuckAtEdge?.or <|
      if (graph.outgoing source).isEmpty then none else graph.nextEdgeId.1.stuckAtLabel? source
  | .toggleBranch id =>
    (graph.edge? id).bind fun edge =>
      if edge.isBranch then none else graph.stuckAtLabel? edge.source
  | _ => none

/-- An edit that stops where its numbers can no longer be written. -/
def attempt {α : Type} (operation : Operation) (edit : Graph → Graph × Except EditFault α)
    (graph : Graph) : Graph × Except EditFault α :=
  match operation.stuck? graph with
  | some left => (left, .error .longNumber)
  | none => edit graph

theorem attempt_of_stuck {α : Type} {operation : Operation} {graph left : Graph}
    (stuck : operation.stuck? graph = some left) (edit : Graph → Graph × Except EditFault α) :
    attempt operation edit graph = (left, .error .longNumber) := by
  rw [attempt, stuck]

theorem attempt_of_free {α : Type} {operation : Operation} {graph : Graph}
    (free : operation.stuck? graph = none) (edit : Graph → Graph × Except EditFault α) :
    attempt operation edit graph = edit graph := by
  rw [attempt, free]

def execute (operation : Operation) (graph : Graph) : Graph × Except EditFault Outcome :=
  match operation with
  | .addStep label position =>
    let (graph, node) := graph.addStep label position
    (graph, .ok (.node node))
  | .renameNode id label => withOutcome (fun _ => .nothing) (graph.renameNode id label)
  | .removeNode id => withOutcome (fun _ => .nothing) (graph.removeNode id)
  | .nextEdgeId =>
    let (graph, id) := graph.nextEdgeId
    (graph, .ok (.id id))
  | .addEdge edge => withOutcome (fun _ => .nothing) (graph.addEdge edge)
  | .replaceEdge edge => withOutcome (fun _ => .nothing) (graph.replaceEdge edge)
  | .removeEdge id => withOutcome .edge (graph.removeEdge id)
  | .connect source target => withOutcome .edge (graph.connect source target)
  | .disconnect id => withOutcome .edge (graph.disconnect id)
  | .renameCondition source label =>
    withOutcome (fun _ => .nothing) (graph.renameCondition source label)
  | .toggleBranch id => withOutcome .edge (graph.toggleBranch id)

def perform (operation : Operation) : Graph → Graph × Except EditFault Outcome :=
  attempt operation (execute operation)

def run (operations : List Operation) (graph : Graph) : Graph :=
  operations.foldl (fun graph operation => (graph.perform operation).1) graph

theorem run_append (first second : List Operation) (graph : Graph) :
    graph.run (first ++ second) = (graph.run first).run second := List.foldl_append

end Workflow.Graph
