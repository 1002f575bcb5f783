import Workflow.Proofs.Graph.Refusal
import Workflow.Session.Run

/-! The graph of a session into which no text is loaded: a run of edits of the empty graph. Whether
the specification could be written after an edit makes no difference to it. -/

namespace Workflow.Session

/-- Operations that bring in no graph from elsewhere. -/
def Operation.builds : Operation → Bool
  | .load _ | .restore => false
  | _ => true

def Operation.edit? : Operation → Option Graph.Operation
  | .addStep label position => some (.addStep label position)
  | .renameStep id label => some (.renameNode id label)
  | .removeStep id => some (.removeNode id)
  | .connect source target => some (.connect source target)
  | .disconnect id => some (.disconnect id)
  | .toggleBranch id => some (.toggleBranch id)
  | .renameCondition source label => some (.renameCondition source label)
  | _ => none

variable {session : Session} {operation : Operation}

@[simp] theorem graph_keep (key value : Text) (session : Session) :
    (session.keep key value).graph = session.graph := rfl

theorem graph_keepConfig (session : Session) : session.keepConfig.1.graph = session.graph := by
  unfold keepConfig
  split <;> rfl

theorem graph_andThen {α : Type} {next : Session → Session × Except Fault α}
    (kept : ∀ session, (next session).1.graph = session.graph) (result : Session × Except Fault Unit) :
    (andThen next result).1.graph = result.1.graph := by
  obtain ⟨session, outcome⟩ := result
  cases outcome with
  | ok => exact kept session
  | error fault => rfl

theorem fst_withOutcome {α : Type} (make : α → Outcome) (result : Session × Except Fault α) :
    (withOutcome make result).1 = result.1 := rfl

theorem fst_quietly (result : Session × Except Fault Unit) : (quietly result).1 = result.1 := rfl

theorem fst_attempt {α : Type} {edit : Graph.Operation} {graph : Graph}
    {made : Graph → Graph × Except EditFault α}
    (same : (made graph).1 = (graph.execute edit).1) :
    (Graph.attempt edit made graph).1 = (graph.perform edit).1 := by
  rw [Graph.perform, Graph.attempt, Graph.attempt]
  cases edit.stuck? graph with
  | none => exact same
  | some left => rfl

/-- The edits since the graph was empty, given those before an operation. -/
def editsAfter (made : List Graph.Operation) : Operation → List Graph.Operation
  | .reset => []
  | operation => made ++ operation.edit?.toList

/-- The edits of a run since its last reset. -/
def edits (operations : List Operation) : List Graph.Operation := operations.foldl editsAfter []

theorem editsAfter_of_ne (made : List Graph.Operation) (kept : operation ≠ .reset) :
    editsAfter made operation = made ++ operation.edit?.toList := by
  cases operation <;> first | rfl | exact absurd rfl kept

theorem isEdit_of_edit? {edit : Graph.Operation} (found : operation.edit? = some edit) :
    edit.isEdit = true := by
  cases operation <;> first | cases found; rfl | cases found

theorem isEdit_of_editsAfter {made : List Graph.Operation} {operations : List Operation}
    (allowed : ∀ edit ∈ made, edit.isEdit = true) {edit : Graph.Operation}
    (member : edit ∈ operations.foldl editsAfter made) : edit.isEdit = true := by
  induction operations generalizing made with
  | nil => exact allowed edit member
  | cons operation rest ih =>
      refine ih ?_ member
      intro other inside
      by_cases reset : operation = .reset
      · subst reset
        exact absurd inside List.not_mem_nil
      · rw [editsAfter_of_ne made reset] at inside
        rcases List.mem_append.mp inside with old | new
        · exact allowed other old
        · exact isEdit_of_edit? (Option.mem_toList.mp new)

theorem isEdit_of_edits {operations : List Operation} {edit : Graph.Operation}
    (member : edit ∈ edits operations) : edit.isEdit = true :=
  isEdit_of_editsAfter (fun _ inside => absurd inside List.not_mem_nil) member

section Building

variable [Host]

theorem graph_commit (session : Session) : session.commit.1.graph = session.graph := by
  rw [commit]
  split
  · rfl
  · rw [keepSpec, graph_keep, graph_keep]

theorem graph_editing {α : Type} (edit : Graph → Graph × Except EditFault α) (session : Session) :
    (session.editing edit).1.graph = (edit session.graph).1 := by
  cases made : edit session.graph with
  | mk graph result =>
      cases result with
      | error cause => simp only [editing, made]
      | ok result =>
          have kept := graph_commit { session with graph := graph }
          simp only [editing, made]
          cases committed : ({ session with graph := graph } : Session).commit with
          | mk after outcome =>
              rw [committed] at kept
              cases outcome with
              | ok => exact kept
              | error fault => exact kept

theorem graph_updateConfig (fields : Table Json) (session : Session) :
    (session.updateConfig fields).1.graph = session.graph := by
  -- not by its equation, which would try to evaluate the check of the fields
  delta updateConfig
  cases Spec.Config.ofFields (mergedFields session.config fields) with
  | error issues => rfl
  | ok config => exact (graph_andThen graph_commit _).trans (graph_keepConfig _)

theorem graph_perform_edit {edit : Graph.Operation} (found : operation.edit? = some edit) :
    (session.perform operation).1.graph = (session.graph.perform edit).1 := by
  cases operation with
  | addStep label position =>
      obtain rfl := Option.some.inj found
      rw [perform, fst_withOutcome, addStep, graph_editing, fst_attempt]
      rfl
  | renameStep id label =>
      obtain rfl := Option.some.inj found
      rw [perform, fst_quietly, renameStep, graph_editing, Graph.perform, Graph.attempt_of_free rfl,
        Graph.execute, Graph.fst_withOutcome]
  | removeStep id =>
      obtain rfl := Option.some.inj found
      rw [perform, fst_quietly, removeStep, graph_editing, Graph.perform, Graph.attempt_of_free rfl,
        Graph.execute, Graph.fst_withOutcome]
  | connect source target =>
      obtain rfl := Option.some.inj found
      rw [perform, fst_withOutcome, connect, graph_editing, fst_attempt]
      rw [Graph.execute, Graph.fst_withOutcome]
  | disconnect id =>
      obtain rfl := Option.some.inj found
      rw [perform, fst_quietly, disconnect, graph_editing, Graph.perform, Graph.attempt_of_free rfl,
        Graph.execute, Graph.fst_withOutcome]
  | toggleBranch id =>
      obtain rfl := Option.some.inj found
      rw [perform, fst_withOutcome, toggleBranch, graph_editing, fst_attempt]
      rw [Graph.execute, Graph.fst_withOutcome]
  | renameCondition source label =>
      obtain rfl := Option.some.inj found
      rw [perform, fst_quietly, renameCondition, graph_editing, Graph.perform, Graph.attempt_of_free rfl,
        Graph.execute, Graph.fst_withOutcome]
  | _ => cases found

theorem graph_perform_other (quiet : operation.edit? = none) (building : operation.builds = true)
    (kept : operation ≠ .reset) : (session.perform operation).1.graph = session.graph := by
  cases operation with
  | updateConfig fields => rw [perform, fst_quietly, graph_updateConfig]
  | setLanguage language => rw [perform, fst_quietly, setLanguage, graph_updateConfig]
  | setSkip skip => rw [perform, setSkip, graph_keep]
  | selectTemplate templateType template => rw [perform, selectTemplate, graph_keep]
  | request language => rw [perform]
  | load text => exact absurd building Bool.false_ne_true
  | restore => exact absurd building Bool.false_ne_true
  | reset => exact absurd rfl kept
  | _ => cases quiet

theorem graph_perform {made : List Graph.Operation} (same : session.graph = Graph.empty.run made)
    (building : operation.builds = true) :
    (session.perform operation).1.graph = Graph.empty.run (editsAfter made operation) := by
  by_cases reset : operation = .reset
  · subst reset
    rfl
  · rw [editsAfter_of_ne made reset]
    cases found : operation.edit? with
    | none => rw [graph_perform_other found building reset, same, Option.toList_none, List.append_nil]
    | some edit =>
        calc (session.perform operation).1.graph
          _ = (session.graph.perform edit).1 := graph_perform_edit found
          _ = (Graph.empty.run made).run [edit] := by rw [same]; rfl
          _ = Graph.empty.run (made ++ [edit]) := (Graph.run_append made [edit] .empty).symm

theorem graph_run {made : List Graph.Operation} {operations : List Operation}
    (same : session.graph = Graph.empty.run made)
    (building : ∀ operation ∈ operations, operation.builds = true) :
    (session.run operations).graph = Graph.empty.run (operations.foldl editsAfter made) := by
  induction operations generalizing session made with
  | nil => exact same
  | cons operation rest ih =>
      obtain ⟨first, others⟩ := List.forall_mem_cons.mp building
      exact ih (graph_perform same first) others

/-- The graph of a new session is what its edits make of the empty graph. -/
theorem graph_of_start (store : Store) (config : Spec.Config) {operations : List Operation}
    (building : ∀ operation ∈ operations, operation.builds = true) :
    ((start store config).run operations).graph = Graph.empty.run (edits operations) :=
  graph_run rfl building

/-- A graph that was built in a session is refused only for the labels of steps that edges touch. -/
theorem refused_for_labels (store : Store) (config : Spec.Config) {operations : List Operation}
    (building : ∀ operation ∈ operations, operation.builds = true) {named : Spec.Config}
    {violation : Violation}
    (refused : ((start store config).run operations).graph.toDocument named = .error violation) :
    violation.IsLabelError ((start store config).run operations).graph := by
  rw [graph_of_start store config building] at refused ⊢
  have allowed : ∀ edit ∈ edits operations, edit.isEdit = true := fun _ => isEdit_of_edits
  have coherent := Graph.coherent_run Graph.coherent_empty allowed
  have agreed (source : Text) : (Graph.empty.run (edits operations)).Agreed source :=
    (Graph.grouped_run allowed Graph.coherent_empty.edges (Graph.grouped_empty source)).agreed
  obtain ⟨entry, terminal, shaped⟩ := Graph.shaped_of_agreed coherent agreed
  exact Graph.labelError_of_refused shaped refused

end Building

section Usual

attribute [local instance] Host.usual

theorem refused_for_labels_shared :
    let operations : List Operation :=
      [.connect "source" "end", .reset, .addStep (some "a") none, .addStep (some "b") none,
        .connect "source" "step-1", .connect "source" "step-2", .renameStep "step-2" "a",
        .toggleBranch "edge-1", .connect "step-1" "nowhere", .connect "step-1" "end",
        .updateConfig [("name", .text "Agent")]]
    let graph := ((start (.ofTable []) .standard).run operations).graph
    (∀ operation ∈ operations, operation.builds = true) ∧
      graph.toDocument .standard = .error (.sharedLabel "step-1" "step-2" "a") ∧
      ("step-1" : Text) ≠ "step-2" ∧ graph.TouchesStep "step-1" "a" ∧ graph.TouchesStep "step-2" "a" := by
  intro operations graph
  have building : ∀ operation ∈ operations, operation.builds = true := by decide
  have refused : graph.toDocument .standard = .error (.sharedLabel "step-1" "step-2" "a") := by
    rw [show graph = Graph.empty.run (edits operations) from graph_of_start (.ofTable []) .standard building]
    decide +kernel
  exact ⟨building, refused, refused_for_labels (.ofTable []) .standard building refused⟩

end Usual

end Workflow.Session
