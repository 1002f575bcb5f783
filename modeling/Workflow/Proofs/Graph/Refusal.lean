import Workflow.Proofs.Graph.GroupLabel

/-! Why a graph is not written. Where its ends are known and its groups agree, only the labels of
touched steps are left to blame. -/

namespace Workflow

namespace Graph

/-- A step that an edge touches, with its label. -/
def TouchesStep (graph : Graph) (id label : Text) : Prop :=
  ∃ node ∈ graph.nodes, node.isStep = true ∧ node.id = id ∧ node.label = label ∧
    ∃ edge ∈ graph.edges, edge.touches id = true

end Graph

/-- Violations for which the labels of touched steps are to blame. -/
def Violation.IsLabelError (graph : Graph) : Violation → Prop
  | .emptyLabel step => graph.TouchesStep step ""
  | .reservedLabel step label =>
    graph.TouchesStep step label ∧ (label = Spec.startName ∨ label = Spec.endName)
  | .sharedLabel owner step label =>
    owner ≠ step ∧ graph.TouchesStep owner label ∧ graph.TouchesStep step label
  | .reservedCount .. | .unknownEndpoint .. | .mixedConditions .. => False

namespace Graph

/-- Labels of touched steps under which these are noted as the owners. -/
def OwnersTouched (graph : Graph) (owners : Table Text) : Prop :=
  ∀ label owner, owners.get? label = some owner → graph.TouchesStep owner label

variable {graph : Graph} {violation : Violation}

theorem ownersTouched_put {owners : Table Text} {id label : Text}
    (owned : graph.OwnersTouched owners) (own : graph.TouchesStep id label) :
    graph.OwnersTouched (owners.put label id) := by
  intro other owner held
  by_cases same : other = label
  · rw [same, Table.get?_put_self] at held
    rwa [same, ← Option.some.inj held]
  · rw [Table.get?_put_of_ne same] at held
    exact owned other owner held

theorem labelError_of_collectLabels {owners : Table Text} {ids : List Text}
    (touched : ∀ id ∈ ids, ∃ edge ∈ graph.edges, edge.touches id = true)
    (owned : graph.OwnersTouched owners)
    (refused : graph.collectLabels owners ids = .error violation) :
    violation.IsLabelError graph := by
  induction ids generalizing owners with
  | nil => exact absurd refused (by simp [collectLabels])
  | cons id rest ih =>
      obtain ⟨here, further⟩ := List.forall_mem_cons.mp touched
      rw [collectLabels] at refused
      cases found : graph.node? id with
      | none =>
          rw [found] at refused
          exact ih further owned refused
      | some node =>
          obtain ⟨member, rfl⟩ := node?_eq_some found
          simp only [found] at refused
          split at refused
          · exact ih further owned refused
          · rename_i step
            have own : graph.TouchesStep node.id node.label :=
              ⟨node, member, by simpa using step, rfl, rfl, here⟩
            split at refused
            · rename_i empty
              obtain rfl := Except.error.inj refused
              rwa [Text.isEmpty_iff.mp empty] at own
            · split at refused
              · rename_i reserved
                obtain rfl := Except.error.inj refused
                exact ⟨own, reserved⟩
              · cases known : owners.get? node.label with
                | none =>
                    rw [known] at refused
                    exact ih further (ownersTouched_put owned own) refused
                | some owner =>
                    simp only [known] at refused
                    split at refused
                    · exact ih further owned refused
                    · rename_i different
                      obtain rfl := Except.error.inj refused
                      exact ⟨different, owned node.label owner known, own⟩

theorem labelError_of_refused {entry terminal : Node} (shaped : graph.Shaped entry terminal)
    {config : Spec.Config} (refused : graph.toDocument config = .error violation) :
    violation.IsLabelError graph := by
  have checked := checkShape_eq_ok_iff.mpr ⟨entry, terminal, shaped⟩
  simp only [toDocument, checked, single_eq_ok_iff.mpr shaped.entry,
    single_eq_ok_iff.mpr shaped.terminal, bind, Except.bind] at refused
  split at refused
  · rename_i cause collected
    obtain rfl := Except.error.inj refused
    refine labelError_of_collectLabels ?_ ?_ collected
    · intro id visited
      obtain ⟨edge, member, touched⟩ := mem_visited.mp visited
      exact ⟨edge, member, touches_iff.mpr touched⟩
    · intro label owner held
      cases held
  · cases refused

/-- Coherent graphs whose groups agree pass the checks of their shape. -/
theorem shaped_of_agreed (coherent : graph.Coherent) (agreed : ∀ source, graph.Agreed source) :
    ∃ entry terminal, graph.Shaped entry terminal := by
  obtain ⟨entry, first⟩ := List.length_eq_one_iff.mp coherent.entry
  obtain ⟨terminal, last⟩ := List.length_eq_one_iff.mp coherent.terminal
  refine ⟨entry, terminal, first, last, coherent.source, coherent.target,
    fun source => (graph.conditionLabels.get? source).getD "", ?_⟩
  intro edge member condition branch
  have kept := agreed edge.source edge (mem_outgoing.mpr ⟨member, rfl⟩) condition branch
  simp only [kept, Option.getD_some]

end Graph

end Workflow
