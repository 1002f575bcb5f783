import Workflow.Proofs.Session.Restoring

/-! What the store holds after an operation has failed. Edits and loads write the specification before
they keep anything, so their failures leave the store as it is; a change of naming fields keeps these
first, and a graph that then has no text leaves them kept. -/

namespace Workflow.Session

variable {α : Type} {session after : Session} {store : Store} {config changed : Spec.Config}
  {operation : Operation} {fault : Fault}

def Operation.fields? : Operation → Option (Table Json)
  | .updateConfig fields => some fields
  | .setLanguage language => some [("language", language)]
  | _ => none

/-- The operation gives a session naming fields that are in order. -/
def Operation.Renames (operation : Operation) (session : Session) (changed : Spec.Config) : Prop :=
  ∃ fields, operation.fields? = some fields ∧
    Spec.Config.ofFields (mergedFields session.config fields) = .ok changed

theorem Operation.renames_iff {fields : Table Json} (gives : operation.fields? = some fields) :
    operation.Renames session changed ↔
      Spec.Config.ofFields (mergedFields session.config fields) = .ok changed := by
  simp only [Operation.Renames, gives, Option.some.injEq, exists_eq_left']

theorem error_of_isOk {result : Session × Except Fault α} (failed : result.2.isOk = false) :
    ∃ after fault, result = (after, .error fault) := by
  obtain ⟨after, outcome⟩ := result
  cases outcome with
  | error fault => exact ⟨after, fault, rfl⟩
  | ok value => cases failed

theorem withOutcome_error {make : α → Outcome} {result : Session × Except Fault α}
    (failed : withOutcome make result = (after, .error fault)) : result = (after, .error fault) := by
  obtain ⟨session, outcome⟩ := result
  cases outcome with
  | error cause =>
      obtain ⟨rfl, same⟩ := Prod.mk.inj failed
      rw [← Except.error.inj same]
  | ok value => cases (Prod.mk.inj failed).2

section Failing

variable [Host]

theorem store_of_editing_error {edit : Graph → Graph × Except EditFault α}
    (failed : session.editing edit = (after, .error fault)) : after.store = session.store := by
  cases made : edit session.graph with
  | mk graph result =>
      cases result with
      | error cause =>
          rw [editing_of_error made] at failed
          rw [← (Prod.mk.inj failed).1]
      | ok value =>
          rw [editing_of_ok made, commit] at failed
          cases encoded : graph.encode session.config none with
          | error cause =>
              simp only [encoded] at failed
              rw [← (Prod.mk.inj failed).1]
          | ok spec =>
              simp only [encoded] at failed
              cases (Prod.mk.inj failed).2

theorem store_of_load_error {text : Text} (failed : session.load text = (after, .error fault)) :
    after.store = session.store := by
  rcases load_cases text session with
    ⟨cause, _, refused⟩ | ⟨decoded, spec, _, _, ⟨_, raised⟩ | ⟨record, _, loaded⟩⟩
  · rw [refused] at failed
    rw [← (Prod.mk.inj failed).1]
  · rw [raised] at failed
    rw [← (Prod.mk.inj failed).1]
  · rw [loaded] at failed
    cases (Prod.mk.inj failed).2

/-- A change of naming fields fails over the fields, over their record, or with these kept over the
graph. -/
theorem updateConfig_error {fields : Table Json}
    (failed : session.updateConfig fields = (after, .error fault)) :
    (∃ issues, Spec.Config.ofFields (mergedFields session.config fields) = .error issues ∧
      after = session) ∨
    ∃ changed, Spec.Config.ofFields (mergedFields session.config fields) = .ok changed ∧
      (((configRecord changed).dump? = none ∧ fault = .unencodable ∧
          after = { session with config := changed }) ∨
        ∃ record cause, (configRecord changed).dump? = some record ∧
          session.graph.encode changed none = .error cause ∧ fault = .write cause ∧
          after = ({ session with config := changed } : Session).keepRecord record) := by
  -- not by its equation, which would try to evaluate the check of the fields
  delta updateConfig at failed
  cases checked : Spec.Config.ofFields (mergedFields session.config fields) with
  | error issues =>
      rw [checked] at failed
      exact .inl ⟨issues, rfl, (Prod.mk.inj failed).1.symm⟩
  | ok changed =>
      refine .inr ⟨changed, rfl, ?_⟩
      rw [checked] at failed
      dsimp only at failed
      rw [keepConfig] at failed
      dsimp only at failed
      cases dumped : (configRecord changed).dump? with
      | none =>
          rw [dumped] at failed
          obtain ⟨left, same⟩ := Prod.mk.inj failed
          exact .inl ⟨rfl, (Except.error.inj same).symm, left.symm⟩
      | some record =>
          let renamed : Session := { session with config := changed }
          have same : (renamed.keepRecord record).graph.encode (renamed.keepRecord record).config none =
              session.graph.encode changed none := rfl
          rw [dumped] at failed
          dsimp only [andThen] at failed
          rw [commit, same] at failed
          cases encoded : session.graph.encode changed none with
          | error cause =>
              simp only [encoded] at failed
              obtain ⟨left, same⟩ := Prod.mk.inj failed
              exact .inr ⟨record, cause, rfl, rfl, (Except.error.inj same).symm, left.symm⟩
          | ok spec =>
              simp only [encoded] at failed
              cases (Prod.mk.inj failed).2

theorem store_of_failed (commits : operation.commits = true) (keeps : operation.fields? = none)
    (failed : session.perform operation = (after, .error fault)) : after.store = session.store := by
  cases operation with
  | addStep label position =>
      have edited : session.addStep label position = (after, .error fault) := withOutcome_error failed
      exact store_of_editing_error edited
  | renameStep id label => exact store_of_editing_error (withOutcome_error failed)
  | removeStep id => exact store_of_editing_error (withOutcome_error failed)
  | connect source target => exact store_of_editing_error (withOutcome_error failed)
  | disconnect id =>
      have edited : session.disconnect id = (after, .error fault) := withOutcome_error failed
      exact store_of_editing_error edited
  | toggleBranch id => exact store_of_editing_error (withOutcome_error failed)
  | renameCondition source label => exact store_of_editing_error (withOutcome_error failed)
  | load text => exact store_of_load_error (withOutcome_error failed)
  | updateConfig fields => cases keeps
  | setLanguage language => cases keeps
  | _ => cases commits

theorem updateConfig_of_fields {fields : Table Json} (gives : operation.fields? = some fields)
    (failed : session.perform operation = (after, .error fault)) :
    session.updateConfig fields = (after, .error fault) := by
  cases operation with
  | updateConfig given =>
      obtain rfl := Option.some.inj gives
      exact withOutcome_error failed
  | setLanguage language =>
      obtain rfl := Option.some.inj gives
      exact withOutcome_error failed
  | _ => cases gives

/-- An operation that fails leaves the store as it is, unless it gives naming fields that are in order
and can be recorded to a graph that has no text under them: these are kept, and nothing else is. -/
theorem saved_after_failure (works : store.Works) (operations : List Operation)
    (commits : operation.commits = true)
    (failed : ((start store config).run operations).perform operation = (after, .error fault)) :
    ((∀ changed, operation.Renames ((start store config).run operations) changed →
        (configRecord changed).isEncodable = false) →
      after.store = ((start store config).run operations).store) ∧
    ∀ changed, operation.Renames ((start store config).run operations) changed →
      (configRecord changed).isEncodable = true →
      (∃ cause, fault = .write cause ∧
        ((start store config).run operations).graph.encode changed none = .error cause) ∧
      Spec.Config.ofStore? after.store = some changed ∧
      ∀ key, key ≠ Store.configKey → key ≠ Store.languageKey →
        after.store.get? key = ((start store config).run operations).store.get? key := by
  have running : ((start store config).run operations).store.Works := works_run operations works
  generalize (start store config).run operations = session at failed running
  cases gives : operation.fields? with
  | none =>
      refine ⟨fun _ => store_of_failed commits gives failed, ?_⟩
      rintro changed ⟨fields, given, _⟩ _
      rw [gives] at given
      cases given
  | some fields =>
      simp only [Operation.renames_iff gives]
      rcases updateConfig_error (updateConfig_of_fields gives failed) with
        ⟨issues, invalid, rfl⟩ |
        ⟨found, valid, ⟨undumped, rfl, rfl⟩ | ⟨record, cause, dumped, unwritten, rfl, rfl⟩⟩
      · refine ⟨fun _ => rfl, fun changed valid => ?_⟩
        rw [invalid] at valid
        cases valid
      · refine ⟨fun _ => rfl, fun changed also encodable => ?_⟩
        obtain rfl := Except.ok.inj (valid.symm.trans also)
        simp [Json.dump?, encodable] at undumped
      · refine ⟨fun unrecorded => ?_, fun changed also _ => ?_⟩
        · simp [Json.dump?, unrecorded found valid] at dumped
        · obtain rfl := Except.ok.inj (valid.symm.trans also)
          let renamed : Session := { session with config := found }
          have recorded : (renamed.keepRecord record).Records :=
            @records_keepRecord renamed running record dumped
          refine ⟨⟨cause, rfl, unwritten⟩, ofStore?_of_records recorded, ?_⟩
          intro key other language
          rw [@get?_keepRecord renamed running, if_neg language, if_neg other]

end Failing

def nameless : List Operation := [.addStep (some "") none, .connect "source" "step-1"]

section Usual

attribute [local instance] Host.usual

theorem saved_after_failure_nameless :
    ∃ edited renamed first second,
      ((start (.ofTable []) terse).run nameless).perform (.disconnect "edge-2") =
        (edited, .error first) ∧
      edited.store = ((start (.ofTable []) terse).run nameless).store ∧
      ((start (.ofTable []) terse).run nameless).perform (.setLanguage (.text "typescript")) =
        (renamed, .error second) ∧
      Spec.Config.ofStore? renamed.store = some { terse with language := .typescript } ∧
      renamed.store.get? Store.specKey =
        ((start (.ofTable []) terse).run nameless).store.get? Store.specKey := by
  have empty : Store.Works (.ofTable []) := fun _ => rfl
  have edit : (((start (.ofTable []) terse).run nameless).perform (.disconnect "edge-2")).2.isOk =
      false := by decide +kernel
  have rename : (((start (.ofTable []) terse).run nameless).perform
      (.setLanguage (.text "typescript"))).2.isOk = false := by decide +kernel
  have renames : (Operation.setLanguage (.text "typescript")).Renames
      ((start (.ofTable []) terse).run nameless) { terse with language := .typescript } :=
    ⟨_, rfl, by decide +kernel⟩
  obtain ⟨edited, first, refused⟩ := error_of_isOk edit
  obtain ⟨renamed, second, stopped⟩ := error_of_isOk rename
  have kept := (saved_after_failure empty nameless rfl refused).1
    (by rintro changed ⟨fields, given, _⟩; cases given)
  obtain ⟨_, named, same⟩ := (saved_after_failure empty nameless rfl stopped).2 _ renames
    (by decide +kernel)
  exact ⟨edited, renamed, first, second, refused, kept, stopped, named,
    same Store.specKey (by decide) (by decide)⟩

/-- Naming fields that are refused for the graph are kept all the same. -/
theorem refused_name_kept :
    ¬∀ (store : Store) (config : Spec.Config) (operations : List Operation) (operation : Operation)
      (after : Session) (fault : Fault), store.Works → operation.commits = true →
      ((start store config).run operations).perform operation = (after, .error fault) →
      ∀ key ∈ Store.sessionKeys,
        after.store.get? key = ((start store config).run operations).store.get? key := by
  intro all
  let operation : Operation := .updateConfig [("name", .text "Researcher")]
  have facts : (((start (.ofTable []) terse).run nameless).perform operation).2.isOk = false ∧
      (((start (.ofTable []) terse).run nameless).perform operation).1.store.get? Store.configKey ≠
        ((start (.ofTable []) terse).run nameless).store.get? Store.configKey := by decide +kernel
  obtain ⟨after, fault, failed⟩ := error_of_isOk facts.1
  rw [failed] at facts
  exact facts.2 (all (.ofTable []) terse nameless operation after fault (fun _ => rfl) rfl failed
    Store.configKey (by decide))

end Usual

end Workflow.Session
