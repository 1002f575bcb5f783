import Workflow.Session.Run

/-! Refused writes. A session reads its store only to restore itself, so whatever else is done in it
shows the same values and gives the same results over a store that refuses writes as over one that
takes them all. -/

namespace Workflow.Session

/-- What a session is apart from its store. -/
structure View where
  config : Spec.Config
  graph : Graph
  skip : List Json
  templates : Choices
  spec : Text

def view (session : Session) : View :=
  ⟨session.config, session.graph, session.skip, session.templates, session.spec⟩

def withStore (store : Store) (session : Session) : Session := { session with store := store }

/-- Operations that look into the store. -/
def Operation.readsStore : Operation → Bool
  | .restore => true
  | _ => false

/-- What is seen of a session after each operation of a run, and the result of the operation. -/
def history [Host] : List Operation → Session → List (View × Except Fault Outcome)
  | [], _ => []
  | operation :: rest, session =>
    ((session.perform operation).1.view, (session.perform operation).2) ::
      history rest (session.perform operation).1

/-- An act that ends in the same view and with the same result whatever the store is. -/
def IgnoresStore {α : Type} (act : Session → Session × Except Fault α) : Prop :=
  ∀ session store, (act (session.withStore store)).1.view = (act session).1.view ∧
    (act (session.withStore store)).2 = (act session).2

variable {α : Type}

theorem withStore_of_view {first second : Session} (same : first.view = second.view) :
    second.withStore first.store = first := by
  obtain ⟨config, graph, skip, templates, spec⟩ := View.mk.inj same
  cases first
  cases second
  simp only at config graph skip templates spec
  subst config graph skip templates spec
  rfl

theorem ignoresStore_keepConfig : IgnoresStore keepConfig := by
  intro session store
  unfold keepConfig
  have here : (configRecord (session.withStore store).config).dump? =
      (configRecord session.config).dump? := rfl
  rw [here]
  cases (configRecord session.config).dump? with
  | none => exact ⟨rfl, rfl⟩
  | some record => exact ⟨rfl, rfl⟩

theorem ignoresStore_andThen {first : Session → Session × Except Fault Unit}
    {next : Session → Session × Except Fault α} (before : IgnoresStore first) (after : IgnoresStore next) :
    IgnoresStore fun session => andThen next (first session) := by
  intro session store
  obtain ⟨seen, same⟩ := before session store
  dsimp only
  generalize first (session.withStore store) = other at seen same
  generalize first session = plain at seen same
  obtain ⟨here, outcome⟩ := other
  obtain ⟨there, result⟩ := plain
  obtain rfl : outcome = result := same
  cases outcome with
  | error fault => exact ⟨seen, rfl⟩
  | ok _ =>
      have known := after there here.store
      rwa [withStore_of_view seen] at known

theorem ignoresStore_withOutcome (make : α → Outcome) (act : Session → Session × Except Fault α)
    (ignores : IgnoresStore act) : IgnoresStore fun session => withOutcome make (act session) := by
  intro session store
  obtain ⟨seen, same⟩ := ignores session store
  exact ⟨seen, congrArg (Except.map make) same⟩

section Working

variable [Host]

theorem ignoresStore_commit : IgnoresStore commit := by
  intro session store
  unfold commit
  cases written : session.graph.encode session.config none with
  | error cause =>
      have other : (session.withStore store).graph.encode (session.withStore store).config none =
          .error cause := written
      rw [other]
      exact ⟨rfl, rfl⟩
  | ok spec =>
      have other : (session.withStore store).graph.encode (session.withStore store).config none =
          .ok spec := written
      rw [other]
      exact ⟨rfl, rfl⟩

theorem ignoresStore_editing (edit : Graph → Graph × Except EditFault α) :
    IgnoresStore (editing edit) := by
  intro session store
  have here : edit (session.withStore store).graph = edit session.graph := rfl
  cases made : edit session.graph with
  | mk graph result =>
      rw [made] at here
      cases result with
      | error cause =>
          rw [editing_of_error made, editing_of_error here]
          exact ⟨rfl, rfl⟩
      | ok value =>
          obtain ⟨seen, same⟩ := ignoresStore_commit { session with graph := graph } store
          rw [editing_of_ok made, editing_of_ok here]
          exact ⟨seen, congrArg (Except.map fun _ => value) same⟩

theorem ignoresStore_updateConfig (fields : Table Json) : IgnoresStore (updateConfig fields) := by
  intro session store
  -- not by its equation, which would try to evaluate the check of the fields
  delta updateConfig
  have here :
      mergedFields (session.withStore store).config fields = mergedFields session.config fields := rfl
  rw [here]
  cases Spec.Config.ofFields (mergedFields session.config fields) with
  | error issues => exact ⟨rfl, rfl⟩
  | ok config =>
      exact ignoresStore_andThen ignoresStore_keepConfig ignoresStore_commit
        { session with config := config } store

theorem ignoresStore_load (text : Text) : IgnoresStore (load text) := by
  intro session store
  unfold load
  cases Graph.decode text with
  | error cause => exact ⟨rfl, rfl⟩
  | ok decoded =>
      dsimp only
      cases decoded.graph.encode decoded.config none with
      | error cause => exact ⟨rfl, rfl⟩
      | ok spec =>
          have keeps : IgnoresStore fun session => (session.keepSpec, .ok decoded.unresolved) :=
            fun _ _ => ⟨rfl, rfl⟩
          exact ignoresStore_andThen ignoresStore_keepConfig keeps
            { session with graph := decoded.graph, config := decoded.config, spec := spec } store

theorem request_withStore (language : Option Text) (store : Store) (session : Session) :
    (session.withStore store).request language = session.request language := by
  delta request
  rfl

theorem ignoresStore_perform {operation : Operation} (blind : operation.readsStore = false) :
    IgnoresStore (perform operation) := by
  cases operation with
  | addStep label position =>
      exact ignoresStore_withOutcome .node (addStep label position) (ignoresStore_editing _)
  | renameStep id label =>
      exact ignoresStore_withOutcome _ (renameStep id label) (ignoresStore_editing _)
  | removeStep id => exact ignoresStore_withOutcome _ (removeStep id) (ignoresStore_editing _)
  | connect source target =>
      exact ignoresStore_withOutcome .edge (connect source target) (ignoresStore_editing _)
  | disconnect id => exact ignoresStore_withOutcome _ (disconnect id) (ignoresStore_editing _)
  | toggleBranch id =>
      exact ignoresStore_withOutcome .edge (toggleBranch id) (ignoresStore_editing _)
  | renameCondition source label =>
      exact ignoresStore_withOutcome _ (renameCondition source label) (ignoresStore_editing _)
  | updateConfig fields =>
      exact ignoresStore_withOutcome _ (updateConfig fields) (ignoresStore_updateConfig fields)
  | setLanguage language =>
      exact ignoresStore_withOutcome _ (setLanguage language) (ignoresStore_updateConfig _)
  | setSkip skip => exact fun _ _ => ⟨rfl, rfl⟩
  | selectTemplate templateType template => exact fun _ _ => ⟨rfl, rfl⟩
  | request language =>
      exact fun session store =>
        ⟨rfl, congrArg (Except.map Outcome.request) (request_withStore language store session)⟩
  | load text => exact ignoresStore_withOutcome _ (load text) (ignoresStore_load text)
  | restore => cases blind
  | reset => exact fun _ _ => ⟨rfl, rfl⟩

theorem history_of_view {operations : List Operation}
    (blind : ∀ operation ∈ operations, operation.readsStore = false) {first second : Session}
    (same : first.view = second.view) : first.history operations = second.history operations := by
  induction operations generalizing first second with
  | nil => rfl
  | cons operation rest ih =>
      obtain ⟨here, later⟩ := List.forall_mem_cons.mp blind
      obtain ⟨seen, result⟩ := ignoresStore_perform here second first.store
      rw [withStore_of_view same] at seen result
      rw [history, history, seen, result, ih later seen]

/-- Whatever writes are refused, a session that does not restore itself goes through the same values
and gives the same results as one none of whose writes is refused. -/
theorem refused_writes_unseen (session : Session) (refuses : Nat → Bool)
    {operations : List Operation}
    (blind : ∀ operation ∈ operations, operation.readsStore = false) :
    (session.withStore { session.store with refuses := refuses }).history operations =
      (session.withStore { session.store with refuses := fun _ => false }).history operations :=
  history_of_view blind rfl

end Working

section Usual

attribute [local instance] Host.usual

theorem refused_writes_unseen_alternating :
    let session := start (.ofTable []) .standard
    let operations : List Operation :=
      [.connect "source" "nowhere", .connect "source" "end", .setLanguage (.text "go"),
        .selectTemplate "python" "mine", .load "entry: nothing", .disconnect "edge-1", .reset]
    (∀ operation ∈ operations, operation.readsStore = false) ∧
      (session.withStore { session.store with
          refuses := fun count => count % 2 == 0 }).history operations =
        (session.withStore { session.store with refuses := fun _ => false }).history operations := by
  intro session operations
  have blind : ∀ operation ∈ operations, operation.readsStore = false := by decide
  exact ⟨blind, refused_writes_unseen session _ blind⟩

end Usual

end Workflow.Session
