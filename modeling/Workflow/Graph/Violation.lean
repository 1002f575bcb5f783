import Workflow.Graph.Basic
import Workflow.Text.Literal

/-! Why a graph cannot be written without guessing. -/

namespace Workflow

inductive Violation where
  | reservedCount (kind : Kind) (found : Nat)
  | unknownEndpoint (edge node : Text)
  | mixedConditions (source expected found : Text)
  | emptyLabel (step : Text)
  | reservedLabel (step label : Text)
  | sharedLabel (owner step label : Text)
  deriving DecidableEq, Repr

namespace Violation

def reservedCountText (kind : Kind) (found : Nat) : Text :=
  "graph must contain exactly one " ++ kind.word ++ " node, found " ++ toString found

def message : Violation → Text
  | reservedCount kind found => reservedCountText kind found
  | unknownEndpoint edge node => "edge " ++ edge ++ " references unknown node: " ++ node
  | mixedConditions source expected found =>
    "branch group of " ++ source ++ " mixes condition labels " ++ Text.literal expected ++ " and " ++
      Text.literal found
  | emptyLabel step => "step " ++ step ++ " has an empty label"
  | reservedLabel step label => "step " ++ step ++ " uses the reserved name " ++ Text.literal label
  | sharedLabel owner step label =>
    "steps " ++ owner ++ " and " ++ step ++ " share the label " ++ Text.literal label

end Violation

namespace Graph

def single (kind : Kind) (graph : Graph) : Except Violation Node :=
  match graph.ofKind kind with
  | [node] => .ok node
  | nodes => .error (.reservedCount kind nodes.length)

/-- Whether something leaves the entry and something reaches the terminal; a graph without edges is
not asked for its reserved nodes. -/
def hasPath (graph : Graph) : Except Violation Bool :=
  if graph.edges.isEmpty then .ok false
  else do
    let entry ← graph.single .entry
    let terminal ← graph.single .terminal
    return graph.edges.any (·.source == entry.id) && graph.edges.any (·.target == terminal.id)

theorem single_eq_ok_iff {graph : Graph} {kind : Kind} {node : Node} :
    graph.single kind = .ok node ↔ graph.ofKind kind = [node] := by
  unfold single
  split <;> simp_all

end Graph

end Workflow
