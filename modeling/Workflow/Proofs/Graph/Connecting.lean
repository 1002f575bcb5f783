import Workflow.Proofs.Graph.FreshLabel

/-! What connecting two nodes does to a graph. The first edge of a source is a direct one; a further
one takes all edges of the source under one label and leaves those of other sources alone. -/

namespace Workflow.Graph

/-- The label known for a source: the condition of the first branch that leaves it, or else the one
kept for it. Where there is none it is empty. -/
def knownLabel (graph : Graph) (source : Text) : Text :=
  match (graph.outgoing source).find? Edge.isBranch with
  | some branch => branch.condition.getD ""
  | none => (graph.conditionLabels.get? source).getD ""

/-- The label under which the edges of a source come together, with the counter of labels after that.
A known label is taken if a user gave it or a branch carries it; else it is the next generic one. -/
def joinLabel (graph : Graph) (source : Text) : Text × Int :=
  let known := graph.knownLabel source
  if known ≠ "" ∧ IsOwn known then (known, graph.groupCount)
  else if known ≠ "" ∧ ∃ edge ∈ graph.outgoing source, edge.isBranch = true then
    (known, graph.groupCount)
  else (genericLabel (graph.groupCount + 1), graph.groupCount + 1)

variable {graph : Graph} {source target label : Text}

theorem findSome?_condition (edges : List Edge) :
    edges.findSome? Edge.condition = (edges.find? Edge.isBranch).bind Edge.condition := by
  induction edges with
  | nil => rfl
  | cons edge rest ih =>
      rw [List.findSome?_cons, List.find?_cons, Edge.isBranch]
      cases here : edge.condition with
      | none => exact ih
      | some condition => exact here.symm

theorem knownLabel_eq (graph : Graph) (source : Text) :
    graph.knownLabel source = (graph.groupLabel source).getD "" := by
  rw [knownLabel, groupLabel, findSome?_condition]
  cases found : (graph.outgoing source).find? Edge.isBranch with
  | none => rw [Option.bind_none, Option.none_or]
  | some branch =>
      have holds : branch.isBranch = true := List.find?_some found
      obtain ⟨condition, carried⟩ := Option.isSome_iff_exists.mp holds
      rw [Option.bind_some, carried, Option.some_or]
      exact congrArg (·.getD "") carried

theorem isGenericLabel_eq_false_iff {current : Option Text} :
    isGenericLabel current = false ↔ current.getD "" ≠ "" ∧ IsOwn (current.getD "") := by
  cases current with
  | none => simp [isGenericLabel]
  | some text =>
      simp only [isGenericLabel, Option.all_some, Bool.or_eq_false_iff, Text.isEmpty_eq_false_iff,
        Option.getD_some]
      rfl

theorem resolveLabel_eq_joinLabel (source : Text) (graph : Graph) :
    graph.resolveLabel source =
      ({ graph with groupCount := (graph.joinLabel source).2 }, (graph.joinLabel source).1) := by
  have own := @isGenericLabel_eq_false_iff (graph.groupLabel source)
  have carried : ((graph.outgoing source).any Edge.isBranch &&
      !((graph.groupLabel source).getD "").isEmpty) = true ↔
        (graph.groupLabel source).getD "" ≠ "" ∧
          ∃ edge ∈ graph.outgoing source, edge.isBranch = true := by
    rw [Bool.and_eq_true, List.any_eq_true, Bool.not_eq_true', Text.isEmpty_eq_false_iff, and_comm]
  simp only [resolveLabel, joinLabel, knownLabel_eq, ← own, ← carried, Bool.or_eq_true,
    Bool.not_eq_true']
  by_cases typed : isGenericLabel (graph.groupLabel source) = false
  · rw [if_pos (.inl typed), if_pos typed]
  · rw [if_neg typed]
    split <;> rename_i settled
    · rw [if_pos (settled.resolve_left typed)]
    · rw [if_neg fun grouped => settled (.inr grouped)]

/-- In an agreed source the known label is the kept one. -/
theorem joinLabel_of_kept (agreed : graph.Agreed source)
    (kept : graph.conditionLabels.get? source = some label) (filled : label ≠ "") :
    graph.joinLabel source =
      if IsOwn label ∨ ∃ edge ∈ graph.outgoing source, edge.isBranch = true then
        (label, graph.groupCount)
      else (genericLabel (graph.groupCount + 1), graph.groupCount + 1) := by
  have known : graph.knownLabel source = label := by
    rw [knownLabel_eq, groupLabel_of_agreed agreed, kept, Option.getD_some]
  simp only [joinLabel, known, ne_eq, filled, not_false_eq_true, true_and]
  by_cases own : IsOwn label
  · rw [if_pos own, if_pos (.inl own)]
  · rw [if_neg own]
    simp only [own, false_or]

theorem relabel_source (source label : Text) :
    Edge.relabel (·.source == source) label = fun old =>
      if old.source = source then { old with condition := some label } else old := by
  funext edge
  rw [Edge.relabel]
  by_cases own : edge.source = source
  · rw [if_pos (beq_iff_eq.mpr own), if_pos own]
  · rw [if_neg (by simpa using own), if_neg own]

/-- Connecting two nodes draws a new edge behind all others. The first one of a source is direct; else
all edges of the source become branches under one label, which is kept for it, and nothing else
changes but the counters. -/
theorem connect_known (distinct : graph.edgeIds.Nodup) (first : source ∈ graph.nodeIds)
    (last : target ∈ graph.nodeIds) :
    let edge := Edge.direct (edgeId graph.freshEdgeNumber) source target
    let label := (graph.joinLabel source).1
    edge.id ∉ graph.edgeIds ∧
      graph.connect source target =
        if graph.outgoing source = [] then
          ({ graph with
              edges := graph.edges ++ [edge]
              edgeCount := graph.freshEdgeNumber }, .ok edge)
        else
          ({ graph with
              edges := (graph.edges ++ [edge]).map fun old =>
                if old.source = source then { old with condition := some label } else old
              conditionLabels := graph.conditionLabels.put source label
              groupCount := (graph.joinLabel source).2
              edgeCount := graph.freshEdgeNumber }, .ok { edge with condition := some label }) := by
  intro edge label
  refine ⟨freshEdgeNumber_free graph, ?_⟩
  have start := hasNode_iff.mpr first
  have stop := hasNode_iff.mpr last
  by_cases alone : graph.outgoing source = []
  · rw [if_pos alone, connect_first_known alone start stop, extended, numbered, if_pos alone]
    rfl
  · have drawn : (graph.extended source target).edgeIds.Nodup :=
      nodup_nextEdge distinct source target
    -- The edge that is given back is the new one, found again by its id.
    have found : ((graph.extended source target).promote source (graph.resolveLabel source).2).edge?
        (graph.nextEdge source target).id = some { graph.nextEdge source target with
          condition := some (graph.resolveLabel source).2 } :=
      edge?_promote drawn (List.mem_append_right _ List.mem_cons_self) _
    rw [if_neg alone, connect_further_known alone start stop]
    simp only [found, Option.getD_some]
    rw [promote_eq drawn, extended, numbered, if_neg alone, resolveLabel_eq_joinLabel,
      relabel_source]
    rfl

/-- A source with a direct edge and a branch, whose condition is not the label kept for it. -/
def staleGroup : Graph :=
  { empty with
    edges := [.direct "edge-1" "source" "end", .branch "edge-7" "end" "source" "again",
      .branch "edge-3" "source" "source" "conditional_edge_4"]
    conditionLabels := [("source", "kind"), ("end", "again")]
    groupCount := 4
    edgeCount := 2 }

theorem connect_known_stale :
    staleGroup.edgeIds.Nodup ∧ ("source" : Text) ∈ staleGroup.nodeIds ∧
      ("end" : Text) ∈ staleGroup.nodeIds ∧
      staleGroup.connect "source" "end" =
        ({ staleGroup with
            edges := [.branch "edge-1" "source" "end" "conditional_edge_4",
              .branch "edge-7" "end" "source" "again",
              .branch "edge-3" "source" "source" "conditional_edge_4",
              .branch "edge-4" "source" "end" "conditional_edge_4"]
            conditionLabels := [("source", "conditional_edge_4"), ("end", "again")]
            edgeCount := 4 }, .ok (.branch "edge-4" "source" "end" "conditional_edge_4")) := by
  have distinct : staleGroup.edgeIds.Nodup := by decide
  have first : ("source" : Text) ∈ staleGroup.nodeIds := by decide
  have last : ("end" : Text) ∈ staleGroup.nodeIds := by decide
  obtain ⟨_, joined⟩ := connect_known distinct first last
  refine ⟨distinct, first, last, joined.trans ?_⟩
  decide +kernel

end Workflow.Graph
