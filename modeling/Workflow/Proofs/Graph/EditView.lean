import Workflow.Proofs.Graph.Relabelling

/-! What an edit does to the conditions of edges and to the labels of sources: it takes some away, or
it puts one source under one label, which was typed or looked for. -/

namespace Workflow.Graph

/-- The source whose label an edit looks for, also where the edit is refused in the end. -/
def Operation.asks (graph : Graph) : Operation → Option Text
  | .connect source _ => if (graph.outgoing source).isEmpty then none else some source
  | .toggleBranch id =>
    match graph.edge? id with
    | none => none
    | some edge => if edge.isBranch then none else some edge.source
  | _ => none

/-- An edit after which no edge has a new condition and no source a new label. -/
structure Thinned (operation : Operation) (graph after : Graph) : Prop where
  edges : ∀ edge ∈ after.edges, edge ∈ graph.edges ∨ edge.condition = none
  labels : ∀ entry ∈ after.conditionLabels, entry ∈ graph.conditionLabels
  label : ∀ source, after.conditionLabels.get? source = graph.conditionLabels.get? source ∨
    operation = .removeNode source ∧ after.outgoing source = [] ∧
      after.conditionLabels.get? source = none

/-- An edit that puts branches of a source under a label. Older ones of them stay as they are only
where this label was looked for. -/
structure Relabelled (graph after : Graph) (source label : Text) : Prop where
  edges : ∀ edge ∈ after.edges, edge.condition = none ∨
    edge.source = source ∧ edge.condition = some label ∨
    edge ∈ graph.edges ∧ (edge.source = source → label = (graph.resolveLabel source).2)
  labels : after.conditionLabels = graph.conditionLabels.put source label

variable {operation : Operation} {graph after : Graph} {source label : Text}

theorem thinned_of_mem (edges : ∀ edge ∈ after.edges, edge ∈ graph.edges ∨ edge.condition = none)
    (labels : after.conditionLabels = graph.conditionLabels) : Thinned operation graph after := by
  constructor
  · exact edges
  · intro entry member
    rwa [labels] at member
  · intro source
    rw [labels]
    exact .inl rfl

theorem thinned_of_same (edges : after.edges = graph.edges)
    (labels : after.conditionLabels = graph.conditionLabels) : Thinned operation graph after := by
  apply thinned_of_mem _ labels
  rw [edges]
  exact fun edge member => .inl member

theorem relabelled_of_map {edges : List Edge} {chosen : Edge → Bool}
    (known : ∀ edge ∈ edges, edge ∈ graph.edges ∨ edge.condition = none)
    (own : ∀ edge ∈ edges, chosen edge = true → edge.source = source)
    (others : ∀ edge ∈ graph.edges, edge.source = source → edge.isBranch = true →
      chosen edge = false → label = (graph.resolveLabel source).2)
    (mapped : after.edges = edges.map (Edge.relabel chosen label))
    (labels : after.conditionLabels = graph.conditionLabels.put source label) :
    Relabelled graph after source label := by
  refine ⟨?_, labels⟩
  intro edge member
  rw [mapped] at member
  obtain ⟨old, inside, rfl⟩ := List.mem_map.mp member
  rw [Edge.source_relabel, Edge.relabel]
  cases picked : chosen old with
  | true => exact .inr (.inl ⟨own old inside picked, rfl⟩)
  | false =>
      simp only [Bool.false_eq_true, ↓reduceIte]
      rcases known old inside with before | direct
      · cases condition : old.condition with
        | none => exact .inl rfl
        | some text =>
            refine .inr (.inr ⟨before, fun same => others old before same ?_ picked⟩)
            rw [Edge.isBranch, condition]
            rfl
      · exact .inl direct

theorem thinned_removeNode (id : Text) (graph : Graph) :
    Thinned (.removeNode id) graph (graph.removeNode id).1 := by
  rw [removeNode]
  split
  · exact thinned_of_same rfl rfl
  · split
    · constructor
      · exact fun edge member => .inl (List.mem_of_mem_filter member)
      · exact fun entry member => List.mem_of_mem_filter member
      · intro source
        by_cases own : source = id
        · subst own
          refine .inr ⟨rfl, ?_, Table.get?_erase_self source graph.conditionLabels⟩
          rw [outgoing, List.filter_filter, List.filter_eq_nil_iff]
          intro edge _
          cases same : edge.source == source <;> simp [Edge.touches, same]
        · exact .inl (Table.get?_erase_of_ne own graph.conditionLabels)
    · exact thinned_of_same rfl rfl

theorem thinned_removeEdge (id : Text) (graph : Graph) :
    Thinned operation graph (graph.removeEdge id).1 := by
  rw [removeEdge]
  split
  · exact thinned_of_same rfl rfl
  · exact thinned_of_mem (fun edge member => .inl (List.mem_of_mem_filter member)) rfl

theorem thinned_renameNode (id label : Text) (graph : Graph) :
    Thinned operation graph (graph.renameNode id label).1 := by
  rw [renameNode]
  split <;> exact thinned_of_same rfl rfl

theorem renameCondition_view (distinct : graph.edgeIds.Nodup) (source text : Text) :
    Thinned operation graph (graph.renameCondition source text).1 ∨
      Text.trimBlanks text ≠ "" ∧
        Relabelled graph (graph.renameCondition source text).1 source (Text.trimBlanks text) := by
  rcases renameCondition_cases distinct source text with same | ⟨filled, same⟩
  · rw [same]
    exact .inl (thinned_of_same rfl rfl)
  · rw [same]
    refine .inr ⟨filled, relabelled_of_map (fun edge member => .inl member) ?_ ?_ rfl rfl⟩
    · intro edge _ chosen
      exact beq_iff_eq.mp (Bool.and_eq_true_iff.mp chosen).2
    · intro edge _ own branch ignored
      rw [branch, own, beq_self_eq_true] at ignored
      exact absurd ignored (by decide)

theorem connect_view (distinct : graph.edgeIds.Nodup) (source target : Text) :
    Thinned operation graph (graph.connect source target).1 ∨
      graph.outgoing source ≠ [] ∧
        Relabelled graph (graph.connect source target).1 source (graph.resolveLabel source).2 := by
  have drawn : ∀ edge ∈ graph.edges ++ [graph.nextEdge source target],
      edge ∈ graph.edges ∨ edge.condition = none := by
    intro edge member
    rcases List.mem_append.mp member with old | new
    · exact .inl old
    · exact .inr (congrArg Edge.condition (List.mem_singleton.mp new))
  by_cases siblings : graph.outgoing source = []
  · left
    rcases connect_first siblings target with same | same
    · rw [same]
      exact thinned_of_same rfl rfl
    · rw [same]
      exact thinned_of_mem drawn rfl
  · rcases connect_further distinct siblings target with same | same
    · rw [same]
      exact .inl (thinned_of_same rfl rfl)
    · rw [same]
      exact .inr ⟨siblings, relabelled_of_map drawn (fun edge _ chosen => beq_iff_eq.mp chosen)
        (fun _ _ _ _ _ => rfl) rfl rfl⟩

theorem toggleBranch_view (distinct : graph.edgeIds.Nodup) (id : Text) :
    Thinned operation graph (graph.toggleBranch id).1 ∨
      ∃ edge, graph.edge? id = some edge ∧ edge.isBranch = false ∧
        Relabelled graph (graph.toggleBranch id).1 edge.source
          (graph.resolveLabel edge.source).2 := by
  cases found : graph.edge? id with
  | none =>
      rw [toggleBranch, found]
      exact .inl (thinned_of_same rfl rfl)
  | some edge =>
      obtain ⟨known, _⟩ := edge?_eq_some found
      cases branch : edge.isBranch with
      | true =>
          rw [toggleBranch_branch distinct found branch]
          refine .inl (thinned_of_mem ?_ rfl)
          intro other member
          obtain ⟨old, inside, rfl⟩ := List.mem_map.mp member
          split
          · exact .inr rfl
          · exact .inl inside
      | false =>
          rw [toggleBranch_direct distinct found branch]
          refine .inr ⟨edge, rfl, branch, relabelled_of_map (fun edge member => .inl member) ?_
            (fun _ _ _ _ _ => rfl) rfl rfl⟩
          intro other inside chosen
          exact congrArg Edge.source
            (List.inj_on_of_nodup_map distinct inside known (of_decide_eq_true chosen))

theorem execute_view (distinct : graph.edgeIds.Nodup) (allowed : operation.isEdit = true) :
    Thinned operation graph (graph.execute operation).1 ∨
      (∃ source text, operation = .renameCondition source text ∧ Text.trimBlanks text ≠ "" ∧
        Relabelled graph (graph.execute operation).1 source (Text.trimBlanks text)) ∨
      ∃ source, operation.asks graph = some source ∧
        Relabelled graph (graph.execute operation).1 source (graph.resolveLabel source).2 := by
  cases operation with
  | addStep label position => exact .inl (thinned_of_same rfl rfl)
  | nextEdgeId => exact .inl (thinned_of_same rfl rfl)
  | addEdge edge => exact absurd allowed Bool.false_ne_true
  | replaceEdge edge => exact absurd allowed Bool.false_ne_true
  | renameNode id label =>
      rw [execute, fst_withOutcome]
      exact .inl (thinned_renameNode id label graph)
  | removeNode id =>
      rw [execute, fst_withOutcome]
      exact .inl (thinned_removeNode id graph)
  | removeEdge id =>
      rw [execute, fst_withOutcome]
      exact .inl (thinned_removeEdge id graph)
  | disconnect id =>
      rw [execute, fst_withOutcome]
      exact .inl (thinned_removeEdge id graph)
  | connect source target =>
      rw [execute, fst_withOutcome]
      rcases connect_view distinct source target with thinned | ⟨siblings, relabelled⟩
      · exact .inl thinned
      · refine .inr (.inr ⟨source, ?_, relabelled⟩)
        simp only [Operation.asks, List.isEmpty_eq_false_iff.mpr siblings, Bool.false_eq_true,
          ↓reduceIte]
  | renameCondition source text =>
      rw [execute, fst_withOutcome]
      rcases renameCondition_view distinct source text with thinned | ⟨filled, relabelled⟩
      · exact .inl thinned
      · exact .inr (.inl ⟨source, text, rfl, filled, relabelled⟩)
  | toggleBranch id =>
      rw [execute, fst_withOutcome]
      rcases toggleBranch_view distinct id with thinned | ⟨edge, found, direct, relabelled⟩
      · exact .inl thinned
      · refine .inr (.inr ⟨edge.source, ?_, relabelled⟩)
        simp only [Operation.asks, found, direct, Bool.false_eq_true, ↓reduceIte]

theorem Recounted.thinned (moved : graph.Recounted after) : Thinned operation graph after := by
  rw [moved.same]
  exact thinned_of_same rfl rfl

/-- What an edit does to conditions and labels: it thins them out, or it gives a source the label
that its user typed, or the one that was looked for. -/
theorem perform_view (distinct : graph.edgeIds.Nodup) (allowed : operation.isEdit = true) :
    Thinned operation graph (graph.perform operation).1 ∨
      (∃ source text, operation = .renameCondition source text ∧ Text.trimBlanks text ≠ "" ∧
        Relabelled graph (graph.perform operation).1 source (Text.trimBlanks text)) ∨
      ∃ source, operation.stuck? graph = none ∧ operation.asks graph = some source ∧
        Relabelled graph (graph.perform operation).1 source (graph.resolveLabel source).2 := by
  rcases perform_cases operation graph with ⟨free, same⟩ | ⟨_, moved, _⟩
  · rw [same]
    rcases execute_view distinct allowed with thinned | named | ⟨source, asked, relabelled⟩
    · exact .inl thinned
    · exact .inr (.inl named)
    · exact .inr (.inr ⟨source, free, asked, relabelled⟩)
  · exact .inl moved.thinned

theorem nodup_execute (distinct : graph.edgeIds.Nodup) (allowed : operation.isEdit = true) :
    (graph.execute operation).1.edgeIds.Nodup := by
  have relabelled {edges : List Edge} (apart : (edges.map Edge.id).Nodup) (chosen : Edge → Bool)
      (label : Text) : ((edges.map (Edge.relabel chosen label)).map Edge.id).Nodup := by
    rw [map_id_map (Edge.id_relabel chosen label)]
    exact apart
  have removed (id : Text) : (graph.removeEdge id).1.edgeIds.Nodup := by
    rw [removeEdge]
    split
    · exact distinct
    · exact (List.filter_sublist.map Edge.id).nodup distinct
  cases operation with
  | addStep label position => exact distinct
  | nextEdgeId => exact distinct
  | addEdge edge => exact absurd allowed Bool.false_ne_true
  | replaceEdge edge => exact absurd allowed Bool.false_ne_true
  | removeEdge id => exact removed id
  | disconnect id => exact removed id
  | renameNode id label =>
      rw [execute, fst_withOutcome, renameNode]
      split <;> exact distinct
  | removeNode id =>
      rw [execute, fst_withOutcome, removeNode]
      split
      · exact distinct
      · split
        · exact (List.filter_sublist.map Edge.id).nodup distinct
        · exact distinct
  | connect source target =>
      rw [execute, fst_withOutcome]
      have drawn := nodup_nextEdge distinct source target
      by_cases siblings : graph.outgoing source = []
      · rcases connect_first siblings target with same | same
        · rw [same]
          exact distinct
        · rw [same]
          exact drawn
      · rcases connect_further distinct siblings target with same | same
        · rw [same]
          exact distinct
        · rw [same]
          exact relabelled drawn _ _
  | renameCondition source text =>
      rw [execute, fst_withOutcome]
      rcases renameCondition_cases distinct source text with same | ⟨_, same⟩
      · rw [same]
        exact distinct
      · rw [same]
        exact relabelled distinct _ _
  | toggleBranch id =>
      rw [execute, fst_withOutcome]
      cases found : graph.edge? id with
      | none =>
          rw [toggleBranch, found]
          exact distinct
      | some edge =>
          cases branch : edge.isBranch with
          | true =>
              rw [toggleBranch_branch distinct found branch, edgeIds, map_id_map]
              · exact distinct
              · intro old
                split
                · rename_i same
                  exact same.symm
                · rfl
          | false =>
              rw [toggleBranch_direct distinct found branch]
              exact relabelled distinct _ _

theorem nodup_perform (distinct : graph.edgeIds.Nodup) (allowed : operation.isEdit = true) :
    (graph.perform operation).1.edgeIds.Nodup := by
  rcases perform_cases operation graph with ⟨_, same⟩ | ⟨_, moved, _⟩
  · rw [same]
    exact nodup_execute distinct allowed
  · rw [moved.same]
    exact distinct

/-- Only looking for a label moves the counter of labels. -/
theorem groupCount_execute (distinct : graph.edgeIds.Nodup) (allowed : operation.isEdit = true) :
    (graph.execute operation).1.groupCount =
      match operation.asks graph with
      | none => graph.groupCount
      | some source => (graph.resolveLabel source).1.groupCount := by
  have removed (id : Text) : (graph.removeEdge id).1.groupCount = graph.groupCount := by
    rw [removeEdge]
    split <;> rfl
  cases operation with
  | addStep label position => rfl
  | nextEdgeId => rfl
  | addEdge edge => exact absurd allowed Bool.false_ne_true
  | replaceEdge edge => exact absurd allowed Bool.false_ne_true
  | removeEdge id => exact removed id
  | disconnect id => exact removed id
  | renameNode id label =>
      rw [execute, fst_withOutcome, renameNode]
      split <;> rfl
  | removeNode id =>
      rw [execute, fst_withOutcome, removeNode]
      split
      · rfl
      · split <;> rfl
  | connect source target =>
      rw [execute, fst_withOutcome]
      by_cases siblings : graph.outgoing source = []
      · simp only [Operation.asks, siblings, List.isEmpty_nil, ↓reduceIte]
        rcases connect_first siblings target with same | same <;> rw [same]
      · simp only [Operation.asks, List.isEmpty_eq_false_iff.mpr siblings, Bool.false_eq_true,
          ↓reduceIte]
        rcases connect_further distinct siblings target with same | same <;> rw [same]
  | renameCondition source text =>
      rw [execute, fst_withOutcome]
      rcases renameCondition_cases distinct source text with same | ⟨_, same⟩ <;> rw [same] <;> rfl
  | toggleBranch id =>
      rw [execute, fst_withOutcome]
      cases found : graph.edge? id with
      | none =>
          rw [toggleBranch, found]
          simp only [Operation.asks, found]
      | some edge =>
          cases branch : edge.isBranch with
          | true =>
              rw [toggleBranch_branch distinct found branch]
              simp only [Operation.asks, found, branch, ↓reduceIte]
          | false =>
              rw [toggleBranch_direct distinct found branch]
              simp only [Operation.asks, found, branch, Bool.false_eq_true, ↓reduceIte]

end Workflow.Graph
