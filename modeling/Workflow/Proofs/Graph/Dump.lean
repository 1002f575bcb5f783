import Workflow.Graph.Check
import Workflow.Proofs.Json.TextTable

/-! A graph from its own data: each part passes the check of its form and comes back as it was. -/

namespace Workflow

namespace Checked

theorem itemsFrom_map {α β : Type} {check : β → Checked α} {dump : α → β} {values : List α}
    (read : ∀ value ∈ values, check (dump value) = .ok value) (index : Nat) :
    itemsFrom check index (values.map dump) = .ok values := by
  induction values generalizing index with
  | nil => rfl
  | cons value rest ih =>
      have first := read value List.mem_cons_self
      have others := ih (fun other member => read other (List.mem_cons_of_mem _ member)) (index + 1)
      rw [List.map_cons, itemsFrom, first, others]
      rfl

end Checked

namespace Check

theorem list_map {α : Type} {check : Json → Checked α} {dump : α → Json} (values : List α)
    (read : ∀ value, check (dump value) = .ok value) :
    list check (.array (values.map dump)) = .ok values :=
  Checked.itemsFrom_map (fun value _ => read value) 0

theorem textTable_textTable (table : Table Text) :
    textTable (Json.textTable table) = .ok table := by
  simp only [textTable, Json.textTable]
  induction table with
  | nil => rfl
  | cons entry rest ih =>
      rw [List.map_cons, List.foldr_cons, ih]
      rfl

end Check

def Position.IsFinite (position : Position) : Prop :=
  position.x.isFinite = true ∧ position.y.isFinite = true

theorem Position.dumped_toJson {position : Position} (finite : position.IsFinite) :
    position.toJson.dumped = position.toJson := by
  simp [toJson, Json.dumped, Json.dumpedFields, finite.1, finite.2]

theorem Node.dumped_toJson {node : Node} (finite : node.position.IsFinite) :
    node.toJson.dumped = node.toJson := by
  simp [toJson, Json.dumped, Json.dumpedFields, Position.dumped_toJson finite]

theorem Edge.dumped_toJson (edge : Edge) : edge.toJson.dumped = edge.toJson := by
  rw [toJson]
  cases edge.condition with
  | none => simp [Json.dumped, Json.dumpedFields]
  | some condition => simp [Json.dumped, Json.dumpedFields]

theorem Position.ofJson_toJson (otherwise : Problem) (position : Position) :
    ofJson otherwise position.toJson = .ok position := rfl

theorem Node.ofJson_toJson (otherwise : Problem) (node : Node) :
    ofJson otherwise node.toJson = .ok node := by
  obtain ⟨kind, id, label, position⟩ := node
  cases kind with
  | entry => rfl
  | terminal => rfl
  | step => rfl

theorem Edge.ofJson_toJson (edge : Edge) : ofJson edge.toJson = .ok edge := by
  obtain ⟨id, source, target, condition⟩ := edge
  cases condition with
  | none => rfl
  | some condition => rfl

namespace Graph

theorem ofJson_toJson (otherwise : Problem) (graph : Graph) :
    ofJson otherwise graph.toJson = graph.withReserved := by
  have nodes := Check.list_map graph.nodes (Node.ofJson_toJson otherwise)
  have edges := Check.list_map graph.edges Edge.ofJson_toJson
  have labels := Check.textTable_textTable graph.conditionLabels
  have read : ofFields otherwise
      [("nodes", .array (graph.nodes.map Node.toJson)),
        ("edges", .array (graph.edges.map Edge.toJson)),
        ("condition_labels", Json.textTable graph.conditionLabels),
        ("conditional_group_count", .int graph.groupCount), ("node_count", .int graph.nodeCount),
        ("edge_count", .int graph.edgeCount)] = .ok graph := by
    simp [ofFields, Check.required, Check.withDefault, Check.noOthers, Table.get?, keys, nodes, edges,
      labels, Check.int, Checked.under, Checked.also, Checked.arg, Except.map]
  rw [ofJson, toJson]
  simp only [Check.fields, read]

theorem dumped_toJson {graph : Graph} (finite : ∀ node ∈ graph.nodes, node.position.IsFinite) :
    graph.toJson.dumped = graph.toJson := by
  have nodes : Json.dumpedItems (graph.nodes.map Node.toJson) = graph.nodes.map Node.toJson := by
    rw [Json.dumpedItems_eq, List.map_map]
    exact List.map_congr_left fun node member => Node.dumped_toJson (finite node member)
  have edges : Json.dumpedItems (graph.edges.map Edge.toJson) = graph.edges.map Edge.toJson := by
    rw [Json.dumpedItems_eq, List.map_map]
    exact List.map_congr_left fun edge _ => Edge.dumped_toJson edge
  simp [toJson, Json.dumped, Json.dumpedFields, Json.dumped_textTable, nodes, edges]

theorem withReserved_of_single {graph : Graph} (entry : (graph.ofKind .entry).length = 1)
    (terminal : (graph.ofKind .terminal).length = 1) : graph.withReserved = .ok graph := by
  simp [withReserved, entry, terminal]

end Graph

end Workflow
