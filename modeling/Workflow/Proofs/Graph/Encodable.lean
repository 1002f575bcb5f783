import Workflow.Graph.Check
import Workflow.Graph.Rebuild
import Workflow.Proofs.Graph.Refusal
import Workflow.Proofs.Json.TextTable
import Workflow.Proofs.Spec.Layout

/-! Graphs in which no half of a pair stands alone: so it is in their data, in their text, and in what is
said against them. -/

namespace Workflow

/-- All texts of a graph have an encoding. -/
structure Graph.IsEncodable (graph : Graph) : Prop where
  nodes : ∀ node ∈ graph.nodes, node.id.isEncodable = true ∧ node.label.isEncodable = true
  edges : ∀ edge ∈ graph.edges, edge.id.isEncodable = true ∧ edge.source.isEncodable = true ∧
    edge.target.isEncodable = true ∧ ∀ condition ∈ edge.condition, condition.isEncodable = true
  labels : ∀ entry ∈ graph.conditionLabels, entry.1.isEncodable = true ∧ entry.2.isEncodable = true

/-- The graph, the naming fields and the unknown names that a text gives all have an encoding. -/
structure Decoded.IsEncodable (decoded : Decoded) : Prop where
  graph : decoded.graph.IsEncodable
  config : ∀ field ∈ decoded.config.entries, field.2.isEncodable = true
  unresolved : ∀ name ∈ decoded.unresolved, name.isEncodable = true

theorem Node.isEncodable_toJson {node : Node} :
    node.toJson.isEncodable = true ↔ node.id.isEncodable = true ∧ node.label.isEncodable = true := by
  have word : node.kind.word.isEncodable = true := by
    cases node.kind <;> exact Text.isEncodable_ofString
  simp [Node.toJson, Position.toJson, word]

theorem Edge.isEncodable_toJson {edge : Edge} :
    edge.toJson.isEncodable = true ↔ edge.id.isEncodable = true ∧ edge.source.isEncodable = true ∧
      edge.target.isEncodable = true ∧ ∀ condition ∈ edge.condition, condition.isEncodable = true := by
  rw [Edge.toJson]
  cases edge.condition with
  | none => simp
  | some condition => simp

theorem Spec.Config.isEncodable_toJson {config : Spec.Config} :
    config.toJson.isEncodable = true ↔ ∀ field ∈ config.entries, field.2.isEncodable = true := by
  have keys : ∀ field ∈ config.entries, field.1.isEncodable = true := by simp [Spec.Config.entries]
  rw [Spec.Config.toJson, Json.isEncodable_textTable]
  exact forall₂_congr fun field member => and_iff_right (keys field member)

namespace Graph

variable {graph : Graph} {config : Spec.Config} {violation : Violation}

theorem isEncodable_toJson : graph.toJson.isEncodable = true ↔ graph.IsEncodable := by
  have parts : graph.toJson.isEncodable = true ↔
      (∀ node ∈ graph.nodes, node.toJson.isEncodable = true) ∧
        (∀ edge ∈ graph.edges, edge.toJson.isEncodable = true) ∧
        (Json.textTable graph.conditionLabels).isEncodable = true := by
    simp [Graph.toJson]
  rw [parts]
  simp only [Node.isEncodable_toJson, Edge.isEncodable_toJson, Json.isEncodable_textTable]
  exact ⟨fun ⟨nodes, edges, labels⟩ => ⟨nodes, edges, labels⟩,
    fun known => ⟨known.nodes, known.edges, known.labels⟩⟩

theorem IsEncodable.specName (known : graph.IsEncodable) (id : Text) :
    (graph.specName id).isEncodable = true := by
  rw [Graph.specName]
  cases found : graph.node? id with
  | none => exact Text.isEncodable_ofString
  | some node =>
      have label := (known.nodes node (node?_eq_some found).1).2
      rw [Option.map_some, Option.getD_some, Node.specName]
      cases node.kind with
      | step => exact label
      | _ => exact Text.isEncodable_ofString

theorem IsEncodable.groupEntry (known : graph.IsEncodable) {group : Text × List Edge}
    (gathered : ∀ edge ∈ group.2, edge ∈ graph.edges) :
    ∀ text ∈ (graph.groupEntry group).texts, text.isEncodable = true := by
  have condition : ((group.2.findSome? Edge.condition).getD "").isEncodable = true := by
    cases found : group.2.findSome? Edge.condition with
    | none => exact Text.isEncodable_ofString
    | some condition =>
        obtain ⟨edge, member, holds⟩ := List.exists_of_findSome?_eq_some found
        exact (known.edges edge (gathered edge member)).2.2.2 condition holds
  intro text inside
  rw [Graph.groupEntry, Spec.Entry.texts] at inside
  rcases List.mem_cons.mp inside with rfl | inside
  · exact known.specName group.1
  · rcases List.mem_cons.mp inside with rfl | inside
    · exact condition
    · obtain ⟨edge, _, rfl⟩ := List.mem_map.mp inside
      exact known.specName edge.target

/-- What is written of a graph are the names of its nodes and its conditions. -/
theorem IsEncodable.written (known : graph.IsEncodable)
    (fields : ∀ field ∈ config.entries, field.2.isEncodable = true) (entry terminal : Node) :
    ∀ text ∈ (graph.written config entry terminal).texts, text.isEncodable = true := by
  intro text member
  rw [Spec.Document.texts, List.mem_append, List.mem_append] at member
  rcases member with (given | node) | entered
  · obtain ⟨field, inside, rfl⟩ := List.mem_map.mp given
    exact fields field inside
  · rcases mem_foldl_addNew.mp node with none | named
    · cases none
    · obtain ⟨id, _, label⟩ := List.mem_filterMap.mp named
      obtain ⟨step, found, rfl⟩ := Option.map_eq_some_iff.mp label
      exact (known.nodes step (node?_eq_some (Option.filter_eq_some_iff.mp found).1).1).2
  · obtain ⟨line, inside, mentions⟩ := List.mem_flatMap.mp entered
    rcases List.mem_append.mp inside with direct | grouped
    · obtain ⟨edge, _, rfl⟩ := List.mem_map.mp direct
      rw [directEntry, Spec.Entry.texts] at mentions
      rcases List.mem_pair.mp mentions with rfl | rfl
      · exact known.specName edge.source
      · exact known.specName edge.target
    · obtain ⟨group, member, rfl⟩ := List.mem_map.mp grouped
      refine known.groupEntry (fun edge inside => ?_) text mentions
      rw [((gathered_groups graph).members group.1 group.2 member).2] at inside
      exact List.mem_of_mem_filter (List.mem_of_mem_filter inside)

theorem IsEncodable.encode [Host] (known : graph.IsEncodable)
    (fields : ∀ field ∈ config.entries, field.2.isEncodable = true) {language : Option Text}
    {text : Text} (made : graph.encode config language = .ok text) : text.isEncodable = true := by
  obtain ⟨document, written, spelled⟩ := encode_eq_ok_iff.mp made
  obtain ⟨entry, terminal, owner, _, rfl⟩ := toDocument_eq_ok_iff.mp written
  rw [Spec.eq_of_text (known.written fields entry terminal) spelled]
  exact Text.isEncodable_ofChars

theorem IsEncodable.id_of_touchesStep (known : graph.IsEncodable) {id label : Text}
    (touches : graph.TouchesStep id label) : id.isEncodable = true := by
  obtain ⟨node, member, _, rfl, _⟩ := touches
  exact (known.nodes node member).1

theorem IsEncodable.message (known : graph.IsEncodable) (blamed : violation.IsLabelError graph) :
    violation.message.isEncodable = true := by
  cases violation with
  | emptyLabel step => simp [Violation.message, known.id_of_touchesStep blamed]
  | reservedLabel step label =>
      simp [Violation.message, Text.literal, known.id_of_touchesStep blamed.1]
  | sharedLabel owner step label =>
      simp [Violation.message, Text.literal, known.id_of_touchesStep blamed.2.1,
        known.id_of_touchesStep blamed.2.2]
  | _ => exact blamed.elim

end Graph

end Workflow
