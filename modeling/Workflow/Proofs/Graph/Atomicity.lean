import Workflow.Proofs.Graph.Connecting

/-! Refused edits. All checks of an edit stand before its changes, but numbers are drawn first: what
was drawn is lost where a number is too long to be written, or where an end of a new edge does not
exist. -/

namespace Workflow.Graph

variable {α : Type} {graph : Graph} {operation : Operation} {fault : EditFault}

def stop (first last : Int) : Int := (Numeral.firstLong? first last).getD last

/-- What is left of a graph by an edit that is refused. -/
def Operation.leftover (operation : Operation) (fault : EditFault) (graph : Graph) : Graph :=
  match operation with
  | .addStep .. => { graph with nodeCount := stop (graph.nodeCount + 1) graph.freshNodeNumber }
  | .nextEdgeId => { graph with edgeCount := stop (graph.edgeCount + 1) graph.freshEdgeNumber }
  | .connect source _ =>
    { graph with
      groupCount :=
        if graph.outgoing source = [] ∨
            Numeral.firstLong? (graph.edgeCount + 1) graph.freshEdgeNumber ≠ none then
          graph.groupCount
        else (graph.joinLabel source).2
      edgeCount := stop (graph.edgeCount + 1) graph.freshEdgeNumber }
  | .toggleBranch _ =>
    if fault = .longNumber then { graph with groupCount := graph.groupCount + 1 } else graph
  | _ => graph

def Atomic (edit : Graph → Graph × Except EditFault α) : Prop :=
  ∀ graph fault, (edit graph).2 = .error fault → (edit graph).1 = graph

theorem error_of_withOutcome {make : α → Outcome} {made : Graph × Except EditFault α}
    (refused : (withOutcome make made).2 = .error fault) : made.2 = .error fault := by
  obtain ⟨graph, result⟩ := made
  cases result with
  | error cause => exact congrArg Except.error (Except.error.inj refused)
  | ok value => cases refused

theorem Atomic.withOutcome {edit : Graph → Graph × Except EditFault α} (atomic : Atomic edit)
    (make : α → Outcome) : Atomic fun graph => Graph.withOutcome make (edit graph) := by
  intro graph fault refused
  rw [fst_withOutcome]
  exact atomic graph fault (error_of_withOutcome refused)

theorem atomic_renameNode (id label : Text) : Atomic (renameNode id label) := by
  intro graph fault refused
  rw [renameNode] at refused ⊢
  split at refused
  · cases refused
  · rename_i absent
    rw [if_neg absent]

theorem atomic_removeNode (id : Text) : Atomic (removeNode id) := by
  intro graph fault refused
  rw [removeNode] at refused ⊢
  cases found : graph.node? id with
  | none => rfl
  | some node =>
      rw [found] at refused
      cases step : node.isStep with
      | false =>
          simp only [step, Bool.false_eq_true, ↓reduceIte]
      | true =>
          simp only [step, ↓reduceIte] at refused
          cases refused

theorem atomic_addEdge (edge : Edge) : Atomic (addEdge edge) := by
  intro graph fault refused
  by_cases known : graph.hasNode edge.source = true ∧ graph.hasNode edge.target = true
  · rw [addEdge_of_known known.1 known.2] at refused
    cases refused
  · obtain ⟨cause, unchanged⟩ := addEdge_of_unknown known
    rw [unchanged]

theorem atomic_replaceEdge (edge : Edge) : Atomic (replaceEdge edge) := by
  intro graph fault refused
  rw [replaceEdge] at refused ⊢
  split at refused
  · cases refused
  · rename_i absent
    rw [if_neg absent]

theorem atomic_removeEdge (id : Text) : Atomic (removeEdge id) := by
  intro graph fault refused
  rw [removeEdge] at refused ⊢
  cases found : graph.edge? id with
  | none => rfl
  | some edge =>
      rw [found] at refused
      cases refused

theorem atomic_renameCondition (source label : Text) : Atomic (renameCondition source label) := by
  intro graph fault refused
  simp only [renameCondition] at refused ⊢
  split at refused
  · rename_i empty
    rw [if_pos empty]
  · rename_i filled
    rw [if_neg filled]
    cases known : graph.hasNode source with
    | false => rfl
    | true =>
        simp only [known, Bool.not_true, Bool.false_eq_true, ↓reduceIte] at refused
        cases refused

theorem atomic_toggleBranch (id : Text) : Atomic (toggleBranch id) := by
  intro graph fault refused
  rw [toggleBranch] at refused ⊢
  cases found : graph.edge? id with
  | none => rfl
  | some edge =>
      simp only [found] at refused
      split at refused <;> cases refused

/-- A refused connection has drawn its numbers and done no more. -/
theorem connect_of_refused {source target : Text}
    (refused : (graph.connect source target).2 = .error fault) :
    (graph.connect source target).1 = graph.numbered source := by
  by_cases known : graph.hasNode source = true ∧ graph.hasNode target = true
  · by_cases alone : graph.outgoing source = []
    · rw [connect_first_known alone known.1 known.2] at refused
      cases refused
    · rw [connect_further_known alone known.1 known.2] at refused
      cases refused
  · obtain ⟨cause, unchanged⟩ := connect_of_unknown known
    rw [unchanged]

theorem eq_unknownId_of_toggleBranch {id : Text}
    (refused : (graph.toggleBranch id).2 = .error fault) : fault = .unknownId id := by
  rw [toggleBranch] at refused
  split at refused
  · exact (Except.error.inj refused).symm
  · split at refused <;> cases refused

theorem firstLong?_of_stuckAtEdge? (free : graph.stuckAtEdge? = none) :
    Numeral.firstLong? (graph.edgeCount + 1) graph.freshEdgeNumber = none :=
  Option.map_eq_none_iff.mp free

theorem leftover_of_stuck {left : Graph} (stuck : operation.stuck? graph = some left) :
    left = operation.leftover .longNumber graph := by
  unfold Operation.stuck? at stuck
  cases operation with
  | addStep label position =>
      obtain ⟨number, found, rfl⟩ := Option.map_eq_some_iff.mp stuck
      rw [Operation.leftover, stop, found, Option.getD_some]
  | nextEdgeId =>
      obtain ⟨number, found, rfl⟩ := Option.map_eq_some_iff.mp stuck
      rw [Operation.leftover, stop, found, Option.getD_some]
  | connect source target =>
      rcases Option.or_eq_some_iff.mp stuck with atEdge | ⟨free, atLabel⟩
      · obtain ⟨number, found, rfl⟩ := Option.map_eq_some_iff.mp atEdge
        rw [Operation.leftover, stop, found, Option.getD_some, if_pos (.inr (by simp))]
      · have short := firstLong?_of_stuckAtEdge? free
        split at atLabel
        · exact absurd atLabel (by simp)
        · rename_i siblings
          rw [List.isEmpty_iff] at siblings
          simp only [stuckAtLabel?, resolveLabel_nextEdgeId] at atLabel
          split at atLabel
          · exact absurd atLabel (by simp)
          · obtain rfl := Option.some.inj atLabel
            rw [Operation.leftover, stop, short, Option.getD_none, if_neg (by simp [siblings]),
              resolveLabel_eq_joinLabel]
  | toggleBranch id =>
      obtain ⟨edge, _, atLabel⟩ := Option.bind_eq_some_iff.mp stuck
      split at atLabel
      · exact absurd atLabel (by simp)
      · rw [stuckAtLabel?_eq_some atLabel, Operation.leftover, if_pos rfl]
  | _ => exact absurd stuck (by simp)

/-- An edit whose numbers can be written leaves the graph as it was, if it is refused and does not
connect. -/
theorem leftover_of_execute (free : operation.stuck? graph = none)
    (refused : (graph.execute operation).2 = .error fault) :
    (graph.execute operation).1 = operation.leftover fault graph := by
  cases operation with
  | addStep label position => cases refused
  | nextEdgeId => cases refused
  | renameNode id label => exact (atomic_renameNode id label).withOutcome _ graph fault refused
  | removeNode id => exact (atomic_removeNode id).withOutcome _ graph fault refused
  | addEdge edge => exact (atomic_addEdge edge).withOutcome _ graph fault refused
  | replaceEdge edge => exact (atomic_replaceEdge edge).withOutcome _ graph fault refused
  | removeEdge id => exact (atomic_removeEdge id).withOutcome .edge graph fault refused
  | disconnect id => exact (atomic_removeEdge id).withOutcome .edge graph fault refused
  | renameCondition source label =>
      exact (atomic_renameCondition source label).withOutcome _ graph fault refused
  | toggleBranch id =>
      have cause := eq_unknownId_of_toggleBranch (error_of_withOutcome refused)
      rw [Operation.leftover, if_neg (by rw [cause]; simp)]
      exact (atomic_toggleBranch id).withOutcome .edge graph fault refused
  | connect source target =>
      unfold Operation.stuck? at free
      have short := firstLong?_of_stuckAtEdge? (Option.or_eq_none_iff.mp free).1
      have left := connect_of_refused (error_of_withOutcome refused)
      rw [numbered, resolveLabel_eq_joinLabel] at left
      rw [execute, fst_withOutcome, left, Operation.leftover, stop, short, Option.getD_none]
      simp only [ne_eq, not_true_eq_false, or_false]

/-- A refused edit leaves a graph as it was, except for the counters from which it drew. Those are the
counter of steps or edges where the number is too long to be written, that of labels where a toggled
edge gets none for that reason, and both that of edges and that of labels where a connection, which
looks for a new label, is refused for its ends. -/
theorem refused_edit_leaves (refused : (graph.perform operation).2 = .error fault) :
    (graph.perform operation).1 = operation.leftover fault graph := by
  cases stuck : operation.stuck? graph with
  | none =>
      rw [perform, attempt_of_free stuck] at refused ⊢
      exact leftover_of_execute stuck refused
  | some left =>
      rw [perform, attempt_of_stuck stuck] at refused ⊢
      obtain rfl := Except.error.inj refused
      exact leftover_of_stuck stuck

def loneEdge : Graph :=
  { empty with edges := [.direct "edge-1" "source" "end"], edgeCount := 1 }

theorem refused_edit_leaves_lone :
    let removal : Operation := .removeNode "end"
    let connection : Operation := .connect "source" "nowhere"
    let crowded : Graph := { loneEdge with groupCount := Binary64.tenTo Numeral.digitLimit - 1 }
    let toggle : Operation := .toggleBranch "edge-1"
    (loneEdge.perform removal).2 = .error (.reservedNode .terminal) ∧
      (loneEdge.perform removal).1 = loneEdge ∧
      (loneEdge.perform connection).2 = .error (.unknownId "nowhere") ∧
      (loneEdge.perform connection).1 = { loneEdge with groupCount := 1, edgeCount := 2 } ∧
      (crowded.perform toggle).2 = .error .longNumber ∧
      (crowded.perform toggle).1 = { crowded with groupCount := crowded.groupCount + 1 } := by
  intro removal connection crowded toggle
  have kept : (loneEdge.perform removal).2 = .error (.reservedNode .terminal) := by decide +kernel
  have drawn : (loneEdge.perform connection).2 = .error (.unknownId "nowhere") := by decide +kernel
  have unwritten : (crowded.perform toggle).2 = .error .longNumber := by decide +kernel
  refine ⟨kept, refused_edit_leaves kept, drawn, (refused_edit_leaves drawn).trans ?_, unwritten,
    refused_edit_leaves unwritten⟩
  decide +kernel

/-- Where a further edge of a source is refused, no group comes about, but its label is used up. -/
theorem refused_connection_counts :
    ¬∀ (graph : Graph) (operation : Operation) (fault : EditFault),
      (graph.perform operation).2 = .error fault → (graph.perform operation).1 = graph := by
  intro all
  have same := all loneEdge (.connect "source" "nowhere") (.unknownId "nowhere") (by decide +kernel)
  have moved : (loneEdge.perform (.connect "source" "nowhere")).1.groupCount = 1 := by
    decide +kernel
  rw [same] at moved
  exact absurd moved (by decide)

end Workflow.Graph
