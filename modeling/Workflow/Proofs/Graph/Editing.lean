import Workflow.Graph.Import
import Workflow.Proofs.Graph.LongNumber
import Workflow.Proofs.Graph.Rebuilt

/-! Graphs that editing begins with, and what holds after any edits of them. -/

namespace Workflow

namespace Compiled

theorem steps_eq_ok {index : Nat} {places : List (Step × Position)} {nodes : List Node}
    (read : steps index places = .ok nodes) :
    nodes.map Node.id = (List.range' index places.length).map (fun place : Nat => stepId (place + 1)) ∧
      ∀ node ∈ nodes, node.kind = .step := by
  induction places generalizing index nodes with
  | nil =>
      obtain rfl := Except.ok.inj read
      exact ⟨rfl, fun node member => absurd member List.not_mem_nil⟩
  | cons place rest ih =>
      obtain ⟨step, position⟩ := place
      simp only [steps] at read
      split at read
      · rename_i label _
        cases further : steps (index + 1) rest with
        | error issues => simp [further, Except.map] at read
        | ok others =>
            rw [further] at read
            obtain rfl := Except.ok.inj read
            obtain ⟨ids, kinds⟩ := ih further
            refine ⟨?_, ?_⟩
            · rw [List.map_cons, ids]
              rfl
            · intro node member
              rcases List.mem_cons.mp member with rfl | deeper
              · rfl
              · exact kinds node deeper
      · exact absurd read (by simp)

theorem idOf_mem (compiled : Compiled) (name : Text) :
    compiled.idOf name ∈ Node.entry.id :: Node.terminal.id ::
      (List.range compiled.stepNodes.length).map fun place : Nat => stepId (place + 1) := by
  rw [idOf]
  split
  · exact List.mem_cons_self
  · split
    · exact List.mem_cons_of_mem _ List.mem_cons_self
    · split
      · rename_i index found
        obtain ⟨inside, _⟩ := List.findIdx?_eq_some_iff_getElem.mp found
        apply List.mem_cons_of_mem
        apply List.mem_cons_of_mem
        exact List.mem_map.mpr ⟨index, List.mem_range.mpr inside, rfl⟩
      · exact List.mem_cons_of_mem _ List.mem_cons_self

theorem coherent_groupLabel {graph : Graph} (holds : graph.Coherent) (compiled : Compiled)
    (name : Text) {source : Text} (known : source ∈ graph.nodeIds) :
    (compiled.groupLabel name source graph).1.Coherent ∧
      (compiled.groupLabel name source graph).1.nodes = graph.nodes := by
  rw [groupLabel]
  split
  · exact ⟨holds, rfl⟩
  · cases (compiled.routers.get? name).bind List.head? with
    | some router => exact ⟨holds.putLabel known router, rfl⟩
    | none =>
        have counted := holds.putCounts (graph.groupCount + 1) graph.nodeCount graph.edgeCount
        exact ⟨counted.putLabel known (genericLabel (graph.groupCount + 1)), rfl⟩

theorem nodes_addEdge (edge : Edge) (graph : Graph) : (graph.addEdge edge).1.nodes = graph.nodes := by
  rw [Graph.addEdge]
  split
  · rfl
  · split <;> rfl

/-- An edge under the next free id. -/
theorem coherent_addNext {graph : Graph} (holds : graph.Coherent) (source target : Text)
    (condition : Option Text) :
    (graph.nextEdgeId.1.addEdge ⟨graph.nextEdgeId.2, source, target, condition⟩).1.Coherent := by
  have counted := holds.putCounts graph.groupCount graph.nodeCount graph.freshEdgeNumber
  have free : (Edge.mk graph.nextEdgeId.2 source target condition).id ∉ graph.edgeIds :=
    Graph.freshEdgeNumber_free graph
  exact Graph.coherent_addEdge counted free

theorem coherent_addLink {graph : Graph} (holds : graph.Coherent) (compiled : Compiled) (link : Link)
    (known : compiled.idOf link.source ∈ graph.nodeIds) :
    (compiled.addLink graph link).Coherent ∧ (compiled.addLink graph link).nodes = graph.nodes := by
  rw [addLink]
  cases link.conditional with
  | false =>
      simp only [Bool.false_eq_true, ↓reduceIte]
      exact ⟨coherent_addNext holds _ _ none, nodes_addEdge _ _⟩
  | true =>
      obtain ⟨labelled, nodes⟩ := coherent_groupLabel holds compiled link.source known
      simp only [↓reduceIte]
      refine ⟨coherent_addNext labelled _ _ _, ?_⟩
      rw [nodes_addEdge]
      exact nodes

theorem coherent_addLinks {graph : Graph} (holds : graph.Coherent) (compiled : Compiled)
    (known : ∀ name, compiled.idOf name ∈ graph.nodeIds) (links : List Link) :
    (links.foldl compiled.addLink graph).Coherent := by
  induction links generalizing graph with
  | nil => exact holds
  | cons link rest ih =>
      obtain ⟨added, nodes⟩ := coherent_addLink holds compiled link (known link.source)
      rw [List.foldl_cons]
      apply ih added
      rw [Graph.nodeIds, nodes]
      exact known

theorem idOf_made {compiled : Compiled} {made : List Node}
    (read : steps 0 (compiled.stepNodes.zip (Layout.positions compiled.stepNodes.length)) = .ok made) :
    ((Node.entry :: Node.terminal :: made).map Node.id).Nodup ∧
      ∀ name, compiled.idOf name ∈ (Node.entry :: Node.terminal :: made).map Node.id := by
  obtain ⟨ids, _⟩ := steps_eq_ok read
  rw [List.length_zip, Layout.length_positions, Nat.min_self, ← List.range_eq_range'] at ids
  rw [List.map_cons, List.map_cons, ids]
  exact ⟨Spec.Document.nodup_stepIds _, idOf_mem compiled⟩

theorem coherent_toGraph {compiled : Compiled} {graph : Graph} (found : compiled.toGraph = .ok graph) :
    graph.Coherent := by
  rw [toGraph] at found
  simp only at found
  cases read : steps 0 (compiled.stepNodes.zip (Layout.positions compiled.stepNodes.length)) with
  | error issues => simp [read, Except.map] at found
  | ok nodes =>
      rw [read] at found
      obtain rfl := Except.ok.inj found
      obtain ⟨_, kinds⟩ := steps_eq_ok read
      obtain ⟨distinct, known⟩ := idOf_made read
      have others (kind : Kind) (other : kind ≠ .step) : nodes.filter (·.kind == kind) = [] := by
        apply List.filter_eq_nil_iff.mpr
        intro node member
        rw [kinds node member]
        simpa using Ne.symm other
      apply coherent_addLinks
      · constructor
        · simp [Graph.ofKind, others, Node.entry, Node.terminal]
        · simp [Graph.ofKind, others, Node.entry, Node.terminal]
        · exact distinct
        · exact List.nodup_nil
        · exact fun edge member => absurd member List.not_mem_nil
        · exact fun edge member => absurd member List.not_mem_nil
        · exact fun id member => absurd member List.not_mem_nil
      · exact known

end Compiled

namespace Graph

theorem coherent_empty : Graph.empty.Coherent := by
  constructor
  · decide
  · decide
  · decide
  · exact List.nodup_nil
  · exact fun edge member => absurd member List.not_mem_nil
  · exact fun edge member => absurd member List.not_mem_nil
  · exact fun id member => absurd member List.not_mem_nil

theorem coherent_decode [Host] {text : Text} {decoded : Decoded}
    (found : Graph.decode text = .ok decoded) : decoded.graph.Coherent := by
  rw [decode] at found
  split at found
  · exact absurd found (by simp)
  · obtain ⟨labels, groups, read, _, same⟩ := Spec.Document.parts_of_toGraph found
    rw [same]
    exact Spec.Document.coherent_graphWith read groups

/-- The graphs that editing begins with. -/
inductive Begins [Host] : Graph → Prop where
  | empty : Begins .empty
  | decoded {text : Text} {decoded : Decoded} (found : Graph.decode text = .ok decoded) :
      Begins decoded.graph
  | compiled {compiled : Compiled} {graph : Graph} (found : compiled.toGraph = .ok graph) :
      Begins graph

theorem Begins.coherent [Host] {graph : Graph} (begins : Begins graph) : graph.Coherent := by
  cases begins with
  | empty => exact coherent_empty
  | decoded found => exact coherent_decode found
  | compiled found => exact Compiled.coherent_toGraph found

/-- Edits by a user; the others put in edges whose ids and ends come from elsewhere. -/
def Operation.isEdit : Operation → Bool
  | .addEdge _ | .replaceEdge _ => false
  | _ => true

/-- The new id that an edit hands out, also where the edit is refused in the end. -/
def Operation.issued (operation : Operation) (graph : Graph) : Option Text :=
  match operation with
  | .addStep label position =>
    if graph.stuckAtStep?.isSome then none else some (graph.addStep label position).2.id
  | .nextEdgeId | .connect .. =>
    if graph.stuckAtEdge?.isSome then none else some graph.nextEdgeId.2
  | _ => none

def issued : List Operation → Graph → List Text
  | [], _ => []
  | operation :: rest, graph =>
    (operation.issued graph).toList ++ issued rest (graph.perform operation).1

theorem fst_withOutcome {α : Type} (make : α → Outcome) (result : Graph × Except EditFault α) :
    (withOutcome make result).1 = result.1 := rfl

theorem coherent_execute {graph : Graph} (holds : graph.Coherent) {operation : Operation}
    (allowed : operation.isEdit = true) : (graph.execute operation).1.Coherent := by
  cases operation with
  | addStep label position => exact coherent_addStep holds label position
  | renameNode id label =>
      rw [execute, fst_withOutcome]
      exact coherent_renameNode holds id label
  | removeNode id =>
      rw [execute, fst_withOutcome]
      exact coherent_removeNode holds id
  | nextEdgeId => exact holds.putCounts graph.groupCount graph.nodeCount graph.freshEdgeNumber
  | addEdge edge => exact absurd allowed Bool.false_ne_true
  | replaceEdge edge => exact absurd allowed Bool.false_ne_true
  | removeEdge id =>
      rw [execute, fst_withOutcome]
      exact coherent_removeEdge holds id
  | connect source target =>
      rw [execute, fst_withOutcome]
      exact coherent_connect holds source target
  | disconnect id =>
      rw [execute, fst_withOutcome]
      exact coherent_removeEdge holds id
  | renameCondition source label =>
      rw [execute, fst_withOutcome]
      exact coherent_renameCondition holds source label
  | toggleBranch id =>
      rw [execute, fst_withOutcome]
      exact coherent_toggleBranch holds id

theorem coherent_perform {graph : Graph} (holds : graph.Coherent) {operation : Operation}
    (allowed : operation.isEdit = true) : (graph.perform operation).1.Coherent := by
  rcases perform_cases operation graph with ⟨_, same⟩ | ⟨_, moved, _⟩
  · rw [same]
    exact coherent_execute holds allowed
  · exact moved.coherent holds

theorem coherent_run {graph : Graph} (holds : graph.Coherent) {operations : List Operation}
    (allowed : ∀ operation ∈ operations, operation.isEdit = true) : (graph.run operations).Coherent := by
  induction operations generalizing graph with
  | nil => exact holds
  | cons operation rest ih =>
      exact ih (coherent_perform holds (allowed operation List.mem_cons_self)) fun other member =>
        allowed other (List.mem_cons_of_mem _ member)

/-- Graphs with the same counters behind their new ids. -/
structure SameCounts (first second : Graph) : Prop where
  node : first.nodeCount = second.nodeCount
  edge : first.edgeCount = second.edgeCount

theorem SameCounts.refl (graph : Graph) : SameCounts graph graph := ⟨rfl, rfl⟩

theorem SameCounts.trans {first second third : Graph} (left : SameCounts first second)
    (right : SameCounts second third) : SameCounts first third :=
  ⟨left.node.trans right.node, left.edge.trans right.edge⟩

theorem sameCounts_addEdge (edge : Edge) (graph : Graph) : SameCounts (graph.addEdge edge).1 graph := by
  rw [addEdge]
  split
  · exact .refl graph
  · split
    · exact .refl graph
    · exact ⟨rfl, rfl⟩

theorem sameCounts_replaceEdge (edge : Edge) (graph : Graph) :
    SameCounts (graph.replaceEdge edge).1 graph := by
  rw [replaceEdge]
  split
  · exact ⟨rfl, rfl⟩
  · exact .refl graph

theorem sameCounts_removeEdge (id : Text) (graph : Graph) :
    SameCounts (graph.removeEdge id).1 graph := by
  rw [removeEdge]
  split
  · exact .refl graph
  · exact ⟨rfl, rfl⟩

theorem sameCounts_recondition (label : Text) (edges : List Edge) (graph : Graph) :
    SameCounts (edges.foldl
      (fun graph edge => (Graph.replaceEdge { edge with condition := some label } graph).1) graph)
      graph := by
  induction edges generalizing graph with
  | nil => exact .refl graph
  | cons edge rest ih => exact (ih _).trans (sameCounts_replaceEdge _ graph)

theorem sameCounts_renameNode (id label : Text) (graph : Graph) :
    SameCounts (graph.renameNode id label).1 graph := by
  rw [renameNode]
  split
  · exact ⟨rfl, rfl⟩
  · exact .refl graph

theorem sameCounts_removeNode (id : Text) (graph : Graph) :
    SameCounts (graph.removeNode id).1 graph := by
  rw [removeNode]
  split
  · exact .refl graph
  · split
    · exact ⟨rfl, rfl⟩
    · exact .refl graph

theorem sameCounts_renameCondition (source label : Text) (graph : Graph) :
    SameCounts (graph.renameCondition source label).1 graph := by
  rw [renameCondition]
  simp only
  split
  · exact .refl graph
  · split
    · exact .refl graph
    · exact (sameCounts_recondition _ _ _).trans ⟨rfl, rfl⟩

theorem sameCounts_resolveLabel (source : Text) (graph : Graph) :
    SameCounts (graph.resolveLabel source).1 graph := by
  obtain ⟨groups, same⟩ := resolveLabel_eq source graph
  rw [same]
  exact ⟨rfl, rfl⟩

theorem sameCounts_toggleBranch (id : Text) (graph : Graph) :
    SameCounts (graph.toggleBranch id).1 graph := by
  rw [toggleBranch]
  split
  · exact .refl graph
  · rename_i edge _
    split
    · exact sameCounts_replaceEdge _ graph
    · have labelled := sameCounts_resolveLabel edge.source graph
      exact (sameCounts_replaceEdge _ _).trans ⟨labelled.node, labelled.edge⟩

theorem sameCounts_promote (source label : Text) (graph : Graph) :
    SameCounts (graph.promote source label) graph := by
  have conditioned := sameCounts_recondition label (graph.outgoing source) graph
  exact ⟨conditioned.node, conditioned.edge⟩

theorem sameCounts_connect (source target : Text) (graph : Graph) :
    SameCounts (graph.connect source target).1 graph.nextEdgeId.1 := by
  rw [connect]
  simp only
  split
  · have added := sameCounts_addEdge (.direct graph.nextEdgeId.2 source target) graph.nextEdgeId.1
    split
    · rename_i after same
      rwa [same] at added
    · rename_i after fault same
      rwa [same] at added
  · have labelled := sameCounts_resolveLabel source graph.nextEdgeId.1
    have added := (sameCounts_addEdge (.direct graph.nextEdgeId.2 source target)
      (graph.nextEdgeId.1.resolveLabel source).1).trans labelled
    split
    · rename_i after fault same
      rwa [same] at added
    · rename_i after same
      rw [same] at added
      exact (sameCounts_promote source _ after).trans added

theorem counts_of_silent {α : Type} {operation : Operation} {graph : Graph} {make : α → Outcome}
    {edited : Graph × Except EditFault α} (same : SameCounts edited.1 graph)
    (made : graph.execute operation = withOutcome make edited) :
    graph.nodeCount ≤ (graph.perform operation).1.nodeCount ∧
      graph.edgeCount ≤ (graph.perform operation).1.edgeCount := by
  rcases perform_cases operation graph with ⟨_, done⟩ | ⟨_, moved, _⟩
  · rw [done, made, fst_withOutcome]
    exact ⟨Int.le_of_eq same.node.symm, Int.le_of_eq same.edge.symm⟩
  · exact ⟨moved.node, moved.edge⟩

theorem counts_connect {graph : Graph} (drawn : graph.stuckAtEdge? = none) (source target : Text) :
    (graph.perform (.connect source target)).1.nodeCount = graph.nodeCount ∧
      (graph.perform (.connect source target)).1.edgeCount = graph.freshEdgeNumber := by
  cases stuck : (Operation.connect source target).stuck? graph with
  | none =>
      have counts := sameCounts_connect source target graph
      rw [perform, attempt_of_free stuck, execute, fst_withOutcome]
      exact ⟨counts.node, counts.edge⟩
  | some left =>
      rw [perform, attempt_of_stuck stuck]
      simp only [Operation.stuck?, drawn, Option.none_or] at stuck
      split at stuck
      · exact absurd stuck (by simp)
      · rw [stuckAtLabel?_eq_some stuck]
        exact ⟨rfl, rfl⟩

/-- An edit that hands out an id moves a counter on to its number; no edit moves one back. -/
theorem counts_perform (operation : Operation) (graph : Graph) :
    (operation.issued graph = none ∧ graph.nodeCount ≤ (graph.perform operation).1.nodeCount ∧
        graph.edgeCount ≤ (graph.perform operation).1.edgeCount) ∨
      (∃ number, operation.issued graph = some (stepId number) ∧ graph.nodeCount < number ∧
        (graph.perform operation).1.nodeCount = number ∧
        (graph.perform operation).1.edgeCount = graph.edgeCount) ∨
      (∃ number, operation.issued graph = some (edgeId number) ∧ graph.edgeCount < number ∧
        (graph.perform operation).1.nodeCount = graph.nodeCount ∧
        (graph.perform operation).1.edgeCount = number) := by
  cases operation with
  | addStep label position =>
      cases stuck : (Operation.addStep label position).stuck? graph with
      | none =>
          right
          left
          refine ⟨graph.freshNodeNumber, ?_, nodeCount_lt_fresh graph, ?_⟩
          · rw [Operation.stuck?] at stuck
            rw [Operation.issued, stuck]
            rfl
          · rw [perform, attempt_of_free stuck]
            exact ⟨rfl, rfl⟩
      | some left =>
          have moved := recounted_of_stuck stuck
          left
          rw [perform, attempt_of_stuck stuck]
          rw [Operation.stuck?] at stuck
          rw [Operation.issued, stuck]
          exact ⟨rfl, moved.node, moved.edge⟩
  | nextEdgeId =>
      cases stuck : Operation.nextEdgeId.stuck? graph with
      | none =>
          right
          right
          refine ⟨graph.freshEdgeNumber, ?_, edgeCount_lt_fresh graph, ?_⟩
          · rw [Operation.stuck?] at stuck
            rw [Operation.issued, stuck]
            rfl
          · rw [perform, attempt_of_free stuck]
            exact ⟨rfl, rfl⟩
      | some left =>
          have moved := recounted_of_stuck stuck
          left
          rw [perform, attempt_of_stuck stuck]
          rw [Operation.stuck?] at stuck
          rw [Operation.issued, stuck]
          exact ⟨rfl, moved.node, moved.edge⟩
  | connect source target =>
      cases stuck : graph.stuckAtEdge? with
      | none =>
          right
          right
          refine ⟨graph.freshEdgeNumber, ?_, edgeCount_lt_fresh graph,
            counts_connect stuck source target⟩
          rw [Operation.issued, stuck]
          rfl
      | some left =>
          have moved := recounted_of_stuckAtEdge? stuck
          have whole : (Operation.connect source target).stuck? graph = some left := by
            rw [Operation.stuck?, stuck, Option.some_or]
          left
          rw [Operation.issued, stuck, perform, attempt_of_stuck whole]
          exact ⟨rfl, moved.node, moved.edge⟩
  | renameNode id label =>
      exact .inl ⟨rfl, counts_of_silent (sameCounts_renameNode id label graph) rfl⟩
  | removeNode id => exact .inl ⟨rfl, counts_of_silent (sameCounts_removeNode id graph) rfl⟩
  | addEdge edge => exact .inl ⟨rfl, counts_of_silent (sameCounts_addEdge edge graph) rfl⟩
  | replaceEdge edge => exact .inl ⟨rfl, counts_of_silent (sameCounts_replaceEdge edge graph) rfl⟩
  | removeEdge id => exact .inl ⟨rfl, counts_of_silent (sameCounts_removeEdge id graph) rfl⟩
  | disconnect id => exact .inl ⟨rfl, counts_of_silent (sameCounts_removeEdge id graph) rfl⟩
  | renameCondition source label =>
      exact .inl ⟨rfl, counts_of_silent (sameCounts_renameCondition source label graph) rfl⟩
  | toggleBranch id => exact .inl ⟨rfl, counts_of_silent (sameCounts_toggleBranch id graph) rfl⟩

def IsLater (graph : Graph) (id : Text) : Prop :=
  (∃ number, graph.nodeCount < number ∧ id = stepId number) ∨
    ∃ number, graph.edgeCount < number ∧ id = edgeId number

theorem IsLater.mono {first second : Graph} {id : Text} (later : IsLater second id)
    (node : first.nodeCount ≤ second.nodeCount) (edge : first.edgeCount ≤ second.edgeCount) :
    IsLater first id := by
  rcases later with ⟨number, above, rfl⟩ | ⟨number, above, rfl⟩
  · exact .inl ⟨number, by omega, rfl⟩
  · exact .inr ⟨number, by omega, rfl⟩

theorem issued_later {operations : List Operation} {graph : Graph} {id : Text}
    (member : id ∈ issued operations graph) : IsLater graph id := by
  induction operations generalizing graph with
  | nil => exact absurd member List.not_mem_nil
  | cons operation rest ih =>
      rw [issued] at member
      rcases counts_perform operation graph with
        ⟨none, node, edge⟩ | ⟨number, some, above, node, edge⟩ | ⟨number, some, above, node, edge⟩
      · rw [none] at member
        exact (ih member).mono node edge
      · rw [some] at member
        rcases List.mem_append.mp member with here | further
        · exact .inl ⟨number, above, List.mem_singleton.mp here⟩
        · exact (ih further).mono (by omega) (by omega)
      · rw [some] at member
        rcases List.mem_append.mp member with here | further
        · exact .inr ⟨number, above, List.mem_singleton.mp here⟩
        · exact (ih further).mono (by omega) (by omega)

theorem nodup_issued (operations : List Operation) (graph : Graph) :
    (issued operations graph).Nodup := by
  induction operations generalizing graph with
  | nil => exact List.nodup_nil
  | cons operation rest ih =>
      rw [issued]
      rcases counts_perform operation graph with
        ⟨none, _⟩ | ⟨number, some, _, node, _⟩ | ⟨number, some, _, _, edge⟩
      · rw [none]
        exact ih _
      · rw [some]
        refine List.nodup_cons.mpr ⟨?_, ih _⟩
        intro member
        rcases issued_later member with ⟨other, above, same⟩ | ⟨other, _, same⟩
        · have equal := stepId_injective same
          omega
        · exact stepId_ne_edgeId number other same
      · rw [some]
        refine List.nodup_cons.mpr ⟨?_, ih _⟩
        intro member
        rcases issued_later member with ⟨other, _, same⟩ | ⟨other, above, same⟩
        · exact stepId_ne_edgeId other number same.symm
        · have equal := edgeId_injective same
          omega

/-- After any edits a graph is coherent, and no id has been handed out twice on the way. -/
theorem edited_graph_coherent [Host] {start : Graph} (begins : Begins start) {operations : List Operation}
    (allowed : ∀ operation ∈ operations, operation.isEdit = true) :
    (start.run operations).Coherent ∧ (issued operations start).Nodup :=
  ⟨coherent_run begins.coherent allowed, nodup_issued operations start⟩

section Usual

attribute [local instance] Host.usual

theorem edited_graph_coherent_removed :
    let operations : List Operation :=
      [.addStep none none, .connect "source" "step-1", .connect "source" "nowhere",
        .connect "step-1" "end", .connect "source" "end", .removeNode "step-1", .addStep none none]
    Begins .empty ∧ (∀ operation ∈ operations, operation.isEdit = true) ∧
      (Graph.empty.run operations).Coherent ∧ (issued operations .empty).Nodup ∧
      issued operations .empty = ["step-1", "edge-1", "edge-2", "edge-3", "edge-4", "step-2"] := by
  intro operations
  have allowed : ∀ operation ∈ operations, operation.isEdit = true := by decide
  obtain ⟨holds, apart⟩ := edited_graph_coherent .empty allowed
  exact ⟨.empty, allowed, holds, apart, by decide +kernel⟩

end Usual

end Graph

end Workflow
