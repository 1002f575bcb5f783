import Workflow.Proofs.Graph.FreshLabel

/-! Labels that a user gave. The group of a source keeps such a label, also when it shrinks to
nothing and grows anew, until the source is removed or gets another one. -/

namespace Workflow.Graph

/-- Edits that neither remove a node nor name its group. -/
def Operation.spares (id : Text) : Operation → Bool
  | .removeNode other | .renameCondition other _ => other != id
  | operation => operation.isEdit

/-- A source whose branches all stand under one label of a user's own, which is kept for it. -/
structure Named (graph : Graph) (source label : Text) : Prop where
  agreed : graph.Agreed source
  kept : graph.conditionLabels.get? source = some label
  filled : label ≠ ""
  own : IsOwn label

variable {graph : Graph} {operation : Operation} {source label : Text}

theorem Operation.isEdit_of_spares (sparing : operation.spares source = true) :
    operation.isEdit = true := by
  cases operation with
  | removeNode other => rfl
  | renameCondition other text => rfl
  | _ => exact sparing

theorem Named.grouped (named : graph.Named source label) : graph.Grouped source := by
  refine ⟨named.agreed, ?_⟩
  rw [named.kept]
  exact fun same => named.filled (Option.some.inj same)

theorem Named.resolveLabel (named : graph.Named source label) :
    graph.resolveLabel source = (graph, label) := by
  have current := (groupLabel_of_agreed named.agreed).trans named.kept
  rcases resolveLabel_cases source graph with ⟨found, here, _, same⟩ | ⟨generic, _⟩
  · rw [same, Option.some.inj (here.symm.trans current)]
  · rw [current, isGenericLabel, Option.all_some, named.own, Bool.or_false,
      Text.isEmpty_iff] at generic
    exact absurd generic named.filled

theorem Named.groupCount_execute (named : graph.Named source label)
    (distinct : graph.edgeIds.Nodup) (allowed : operation.isEdit = true)
    (asked : ∀ other, operation.asks graph = some other → other = source) :
    (graph.execute operation).1.groupCount = graph.groupCount := by
  rw [Graph.groupCount_execute distinct allowed]
  cases found : operation.asks graph with
  | none => rfl
  | some other =>
      obtain rfl := asked other found
      exact congrArg (fun result => result.1.groupCount) named.resolveLabel

theorem Named.groupCount_connect (named : graph.Named source label)
    (distinct : graph.edgeIds.Nodup) (target : Text) :
    (graph.connect source target).1.groupCount = graph.groupCount := by
  have unmoved : (graph.execute (.connect source target)).1.groupCount = graph.groupCount := by
    apply named.groupCount_execute distinct rfl
    intro other asked
    simp only [Operation.asks] at asked
    split at asked
    · exact absurd asked (by simp)
    · exact (Option.some.inj asked).symm
  rwa [execute, fst_withOutcome] at unmoved

theorem Named.groupCount_toggleBranch (named : graph.Named source label)
    (distinct : graph.edgeIds.Nodup) {id : Text} {edge : Edge} (found : graph.edge? id = some edge)
    (leaves : edge.source = source) :
    (graph.toggleBranch id).1.groupCount = graph.groupCount := by
  have unmoved : (graph.execute (.toggleBranch id)).1.groupCount = graph.groupCount := by
    apply named.groupCount_execute distinct rfl
    intro other asked
    simp only [Operation.asks, found] at asked
    split at asked
    · exact absurd asked (by simp)
    · exact (Option.some.inj asked).symm.trans leaves
  rwa [execute, fst_withOutcome] at unmoved

theorem named_renameCondition (distinct : graph.edgeIds.Nodup) (known : source ∈ graph.nodeIds)
    (filled : Text.trimBlanks label ≠ "") (own : IsOwn (Text.trimBlanks label)) :
    (graph.renameCondition source label).1.Named source (Text.trimBlanks label) := by
  rw [renameCondition_known distinct (hasNode_iff.mpr known) filled]
  have kept := Table.get?_put_self source (Text.trimBlanks label) graph.conditionLabels
  refine ⟨?_, kept, filled, own⟩
  intro edge member condition branch
  obtain ⟨inside, leaves⟩ := mem_outgoing.mp member
  obtain ⟨old, _, rfl⟩ := List.mem_map.mp inside
  rw [Edge.source_relabel] at leaves
  rw [Edge.relabel, leaves, beq_self_eq_true, Bool.and_true] at branch
  split at branch
  · exact kept.trans branch
  · rename_i direct
    rw [Edge.isBranch, branch] at direct
    exact absurd rfl direct

theorem named_perform (named : graph.Named source label) (distinct : graph.edgeIds.Nodup)
    (sparing : operation.spares source = true) :
    (graph.perform operation).1.Named source label := by
  have allowed := Operation.isEdit_of_spares sparing
  refine ⟨(grouped_perform distinct allowed named.grouped).agreed, ?_, named.filled, named.own⟩
  rcases perform_view distinct allowed with
    thinned | ⟨other, text, rfl, _, relabelled⟩ | ⟨other, _, _, relabelled⟩
  · rcases thinned.label source with same | ⟨rfl, _⟩
    · exact same.trans named.kept
    · exact absurd sparing (by simp [Operation.spares])
  · have different : source ≠ other := Ne.symm (by simpa [Operation.spares] using sparing)
    rw [relabelled.labels, Table.get?_put_of_ne different]
    exact named.kept
  · rw [relabelled.labels]
    -- An edit may ask for a label of this source too, but then it gets the one that is kept.
    by_cases same : source = other
    · rw [← same, named.resolveLabel]
      exact Table.get?_put_self source label graph.conditionLabels
    · rw [Table.get?_put_of_ne same]
      exact named.kept

theorem named_run {operations : List Operation} (named : graph.Named source label)
    (distinct : graph.edgeIds.Nodup)
    (sparing : ∀ operation ∈ operations, operation.spares source = true) :
    (graph.run operations).Named source label := by
  induction operations generalizing graph with
  | nil => exact named
  | cons operation rest ih =>
      obtain ⟨first, others⟩ := List.forall_mem_cons.mp sparing
      exact ih (named_perform named distinct first)
        (nodup_perform distinct (Operation.isEdit_of_spares first)) others

/-- A group keeps the label that its user gave through all edits that spare it, and none of the edges
of its source moves the counter. -/
theorem own_label_kept (distinct : graph.edgeIds.Nodup) (known : source ∈ graph.nodeIds)
    (filled : Text.trimBlanks label ≠ "") (own : IsOwn (Text.trimBlanks label))
    {operations : List Operation}
    (sparing : ∀ operation ∈ operations, operation.spares source = true) :
    let reached := (graph.renameCondition source label).1.run operations
    reached.conditionLabels.get? source = some (Text.trimBlanks label) ∧
      (∀ edge ∈ reached.outgoing source, edge.isBranch = true →
        edge.condition = some (Text.trimBlanks label)) ∧
      (∀ target, (reached.connect source target).1.groupCount = reached.groupCount) ∧
      ∀ id edge, reached.edge? id = some edge → edge.source = source →
        (reached.toggleBranch id).1.groupCount = reached.groupCount := by
  intro reached
  have start : (graph.renameCondition source label).1.edgeIds.Nodup := by
    have kept : (graph.execute (.renameCondition source label)).1.edgeIds.Nodup :=
      nodup_execute distinct rfl
    rwa [execute, fst_withOutcome] at kept
  have apart : reached.edgeIds.Nodup :=
    nodup_run (fun operation member => Operation.isEdit_of_spares (sparing operation member)) start
  have named : reached.Named source (Text.trimBlanks label) :=
    named_run (named_renameCondition distinct known filled own) start sparing
  refine ⟨named.kept, ?_, named.groupCount_connect apart, ?_⟩
  · intro edge member branch
    obtain ⟨condition, carried⟩ := Option.isSome_iff_exists.mp branch
    calc edge.condition
      _ = some condition := carried
      _ = reached.conditionLabels.get? source :=
        (named.agreed edge member condition carried).symm
      _ = some (Text.trimBlanks label) := named.kept
  · intro id edge found leaves
    exact named.groupCount_toggleBranch apart found leaves

def genericGroup : Graph :=
  { empty with
    edges := [.branch "edge-1" "source" "end" "conditional_edge_1", .direct "edge-2" "source" "end"]
    conditionLabels := [("source", "conditional_edge_1")]
    groupCount := 1
    edgeCount := 2 }

theorem own_label_kept_regrown :
    let operations : List Operation :=
      [.toggleBranch "edge-1", .disconnect "edge-1", .removeEdge "edge-2", .addStep none none,
        .connect "source" "step-1", .connect "source" "nowhere", .removeNode "step-1",
        .connect "source" "end", .connect "source" "end", .renameCondition "end" "other"]
    let reached := (genericGroup.renameCondition "source" " kind\t").1.run operations
    genericGroup.edgeIds.Nodup ∧ ("source" : Text) ∈ genericGroup.nodeIds ∧
      Text.trimBlanks " kind\t" = "kind" ∧ IsOwn "kind" ∧
      (∀ operation ∈ operations, operation.spares "source" = true) ∧
      reached.conditionLabels.get? "source" = some "kind" ∧
      (∀ target, (reached.connect "source" target).1.groupCount = reached.groupCount) ∧
      (reached.outgoing "source").map Edge.condition =
        ([some "kind", some "kind"] : List (Option Text)) ∧
      reached.groupCount = 1 := by
  intro operations reached
  have distinct : genericGroup.edgeIds.Nodup := by decide
  have known : ("source" : Text) ∈ genericGroup.nodeIds := by decide
  have trimmed : Text.trimBlanks " kind\t" = "kind" := by decide +kernel
  have own : IsOwn "kind" := by decide
  have sparing : ∀ operation ∈ operations, operation.spares "source" = true := by decide
  have through := own_label_kept distinct known (by rw [trimmed]; decide) (by rwa [trimmed]) sparing
  rw [trimmed] at through
  obtain ⟨kept, _, counted, _⟩ := through
  exact ⟨distinct, known, trimmed, own, sparing, kept, counted, by decide +kernel, by decide +kernel⟩

end Workflow.Graph
