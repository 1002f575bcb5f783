import Workflow.Number.Binary64
import Workflow.Table

/-! Workflow graphs: one entry, one terminal, named steps, and edges between them. An edge with a
condition is a branch; the branches of one source form a group. -/

namespace Workflow

structure Position where
  x : Binary64
  y : Binary64
  deriving DecidableEq, Repr

inductive Kind where
  | entry
  | terminal
  | step
  deriving DecidableEq, Repr

structure Node where
  kind : Kind
  id : Text
  label : Text
  position : Position
  deriving DecidableEq, Repr

structure Edge where
  id : Text
  source : Text
  target : Text
  /-- Branches have a condition, direct edges none. -/
  condition : Option Text
  deriving DecidableEq, Repr

/-- A graph with the labels of its groups and the counters behind new names. -/
structure Graph where
  nodes : List Node
  edges : List Edge
  conditionLabels : Table Text
  groupCount : Int
  nodeCount : Int
  edgeCount : Int
  deriving DecidableEq, Repr

namespace Position

def origin : Position := ⟨.zero false, .zero false⟩

def ofInts (x y : Int) : Position := ⟨.ofInt x, .ofInt y⟩

def bottom : Position := ofInts 0 600

end Position

def Kind.word : Kind → Text
  | .entry => "entry"
  | .terminal => "terminal"
  | .step => "step"

namespace Node

def entry : Node := ⟨.entry, "source", "source", .origin⟩
def terminal : Node := ⟨.terminal, "end", "end", .bottom⟩
def step (id label : Text) (position : Position) : Node := ⟨.step, id, label, position⟩

def isStep (node : Node) : Bool := node.kind == .step

end Node

namespace Edge

def direct (id source target : Text) : Edge := ⟨id, source, target, none⟩

def branch (id source target condition : Text) : Edge := ⟨id, source, target, some condition⟩

def isBranch (edge : Edge) : Bool := edge.condition.isSome

def touches (id : Text) (edge : Edge) : Bool := edge.source == id || edge.target == id

end Edge

def stepId (number : Int) : Text := "step-" ++ toString number

def edgeId (number : Int) : Text := "edge-" ++ toString number

def pathId (number index : Int) : Text := edgeId number ++ "-" ++ toString index

def genericLabel (number : Int) : Text := "conditional_edge_" ++ toString number

/-- Whether no user gave a label: there is none, it is empty, or it came from the counter. -/
def isGenericLabel (label : Option Text) : Bool :=
  label.all fun text => text.isEmpty || "conditional_edge".toList.isPrefixOf text.chars

namespace Graph

def empty : Graph := ⟨[.entry, .terminal], [], [], 0, 0, 0⟩

def ofKind (kind : Kind) (graph : Graph) : List Node := graph.nodes.filter (·.kind == kind)

def steps (graph : Graph) : List Node := graph.ofKind .step

def node? (id : Text) (graph : Graph) : Option Node := graph.nodes.find? (·.id == id)

def edge? (id : Text) (graph : Graph) : Option Edge := graph.edges.find? (·.id == id)

def hasNode (id : Text) (graph : Graph) : Bool := (graph.node? id).isSome

def outgoing (source : Text) (graph : Graph) : List Edge :=
  graph.edges.filter (·.source == source)

theorem node?_eq_some {graph : Graph} {id : Text} {node : Node}
    (found : graph.node? id = some node) : node ∈ graph.nodes ∧ node.id = id := by
  have member := List.mem_of_find?_eq_some found
  have same := List.find?_some found
  exact ⟨member, by simpa using same⟩

theorem edge?_eq_some {graph : Graph} {id : Text} {edge : Edge}
    (found : graph.edge? id = some edge) : edge ∈ graph.edges ∧ edge.id = id := by
  have member := List.mem_of_find?_eq_some found
  have same := List.find?_some found
  exact ⟨member, by simpa using same⟩

theorem mem_outgoing {graph : Graph} {source : Text} {edge : Edge} :
    edge ∈ graph.outgoing source ↔ edge ∈ graph.edges ∧ edge.source = source := by
  simp [outgoing]

end Graph

end Workflow
