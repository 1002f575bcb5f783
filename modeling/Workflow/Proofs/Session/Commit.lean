import Workflow.Proofs.Session.BuiltGraph
import Workflow.Proofs.Spec.Layout

/-! What an operation does to the store: a refused edit leaves it as it is, a change of naming fields
keeps these before the text is tried, and whatever succeeds keeps the specification anew. -/

namespace Workflow

namespace Store

/-- A store that refuses no write. -/
def Works (store : Store) : Prop := ∀ count, store.refuses count = false

variable {store : Store}

theorem works_put (works : store.Works) (key value : Text) : (store.put key value).Works := by
  intro count
  simp only [put, set, works 0, Bool.false_eq_true, ↓reduceIte]
  exact works (count + 1)

theorem get?_put (works : store.Works) (key value name : Text) :
    (store.put key value).get? name = if name = key then some value else store.get? name := by
  split
  · rename_i same
    rw [same]
    exact get?_put_self (works 0)
  · rename_i different
    exact get?_put_of_ne different value store

theorem get?_delete (store : Store) (key name : Text) :
    (store.delete key).get? name = if name = key then none else store.get? name := by
  split
  · rename_i same
    rw [same]
    exact Table.get?_erase_self key store.values
  · rename_i different
    exact Table.get?_erase_of_ne different store.values

end Store

theorem Spec.text_ne_empty [Host] {document : Spec.Document} {language : Option Text} {text : Text}
    (written : document.text language = .ok text) : text ≠ "" := by
  obtain ⟨lines, _, rfl⟩ := Yaml.except_map_eq_ok written
  -- there is a line break after the first line of the header
  obtain ⟨first, second, rest, header⟩ : ∃ first second rest,
      Document.header (Language.extension (Document.headerWord document.config language)) =
        first :: second :: rest := ⟨_, _, _, rfl⟩
  intro empty
  have letters := congrArg Text.letters empty
  rw [header] at letters
  simp [Text.intercalate, List.intercalate_cons_cons] at letters

theorem Graph.encode_ne_empty [Host] {graph : Graph} {config : Spec.Config} {language : Option Text}
    {text : Text} (written : graph.encode config language = .ok text) : text ≠ "" := by
  obtain ⟨document, _, spelled⟩ := encode_eq_ok_iff.mp written
  exact Spec.text_ne_empty spelled

namespace Session

variable {session before after : Session}

theorem works_keepSpec (works : session.store.Works) : session.keepSpec.store.Works :=
  Store.works_put (Store.works_put works _ _) _ _

theorem works_keepRecord (works : session.store.Works) (record : Text) :
    (session.keepRecord record).store.Works :=
  Store.works_put (Store.works_put works _ _) _ _

theorem get?_keepRecord (works : session.store.Works) (record name : Text) :
    (session.keepRecord record).store.get? name =
      if name = Store.languageKey then some session.config.language.word
      else if name = Store.configKey then some record
      else session.store.get? name := by
  rw [keepRecord, keep, keep, Store.get?_put (Store.works_put works _ _), Store.get?_put works]

theorem get?_keepSpec (works : session.store.Works) (name : Text) :
    session.keepSpec.store.get? name =
      if name = Store.labelsKey then
        some ((Json.textTable session.graph.conditionLabels).write .spaced)
      else if name = Store.specKey then some session.spec
      else session.store.get? name := by
  rw [keepSpec, keep, keep, Store.get?_put (Store.works_put works _ _), Store.get?_put works]

variable {α : Type}

def ending (result : Except Fault α) : Except Fault Unit := result.map fun _ => ()

theorem ending_map {β : Type} (f : α → β) (result : Except Fault α) :
    ending (result.map f) = ending result := by
  cases result <;> rfl

theorem ending_eq_error_iff {result : Except Fault α} {fault : Fault} :
    ending result = .error fault ↔ result = .error fault := by
  cases result <;> simp [ending, Except.map]

/-- Settings may differ, the work does not. -/
structure SameWork (before after : Session) : Prop where
  store : after.store = before.store
  graph : after.graph = before.graph
  spec : after.spec = before.spec

theorem SameWork.trans {first second third : Session} (left : SameWork first second)
    (right : SameWork second third) : SameWork first third :=
  ⟨right.store.trans left.store, right.graph.trans left.graph, right.spec.trans left.spec⟩

/-- Settings are brought back, or a fault is met that is none of a record. -/
structure Settles (before : Session) (result : Session × Except Fault Unit) : Prop where
  same : SameWork before result.1
  other : result.2 ≠ .error .unencodable

theorem settles_ok {before reached : Session} (same : SameWork before reached) :
    Settles before (reached, .ok ()) :=
  ⟨same, by simp⟩

theorem settles_error {fault : Fault} (other : fault ≠ .unencodable) :
    Settles session (session, .error fault) :=
  ⟨⟨rfl, rfl, rfl⟩, by simpa using other⟩

theorem settles_andThen {next : Session → Session × Except Fault Unit}
    {result : Session × Except Fault Unit} (before : Settles session result)
    (further : ∀ session, Settles session (next session)) : Settles session (andThen next result) := by
  obtain ⟨reached, outcome⟩ := result
  cases outcome with
  | ok => exact ⟨before.same.trans (further reached).same, (further reached).other⟩
  | error fault => exact before

theorem sameWork_restoreLanguage (session : Session) : SameWork session session.restoreLanguage := by
  rw [restoreLanguage]
  split <;> exact ⟨rfl, rfl, rfl⟩

/-- Properties of stores that no change breaks which a session makes. -/
structure Stable (p : Store → Prop) : Prop where
  put : ∀ {store : Store} {key : Text} (value : Text), key ∉ [Store.specKey, Store.labelsKey] →
    p store → p (store.put key value)
  keep : ∀ {store : Store} (spec labels : Text), p store →
    p ((store.put Store.specKey spec).put Store.labelsKey labels)
  forget : ∀ {store : Store}, p store → p ((store.delete Store.specKey).delete Store.labelsKey)

variable {p : Store → Prop}

theorem Stable.keepRecord (stable : Stable p) (record : Text) (holds : p session.store) :
    p (session.keepRecord record).store :=
  stable.put _ (by decide) (stable.put record (by decide) holds)

theorem stable_works : Stable Store.Works where
  put _ _ works := Store.works_put works _ _
  keep _ _ works := Store.works_put (Store.works_put works _ _) _ _
  forget works := works

variable [Host]

/-- What an operation that commits makes of a session, and how it ends. Some operations change the
naming fields. -/
inductive Commits (before : Session) : Bool → Session → Except Fault Unit → Prop where
  | refused {names : Bool} (graph : Graph) {fault : Fault} (other : fault ≠ .unencodable) :
    Commits before names { before with graph := graph } (.error fault)
  /-- The naming fields are kept even where the graph then has no text. -/
  | named {config : Spec.Config} {record : Text} (cause : WriteFault)
    (dumped : (configRecord config).dump? = some record) :
    Commits before true (({ before with config := config } : Session).keepRecord record)
      (.error (.write cause))
  | unencodable {graph : Graph} {config : Spec.Config} {spec : Text}
    (undumped : (configRecord config).dump? = none) :
    Commits before true { before with graph := graph, config := config, spec := spec }
      (.error .unencodable)
  | written {graph : Graph} {spec : Text} (encoded : graph.encode before.config none = .ok spec) :
    Commits before false ({ before with graph := graph, spec := spec } : Session).keepSpec (.ok ())
  | replaced {graph : Graph} {config : Spec.Config} {spec record : Text}
    (encoded : graph.encode config none = .ok spec)
    (dumped : (configRecord config).dump? = some record) :
    Commits before true
      (({ before with graph := graph, config := config, spec := spec } : Session).keepRecord
        record).keepSpec (.ok ())

theorem commits_editing (edit : Graph → Graph × Except EditFault α) (session : Session) :
    Commits session false (session.editing edit).1 (ending (session.editing edit).2) := by
  cases made : edit session.graph with
  | mk graph result =>
      cases result with
      | error cause =>
          rw [editing_of_error made]
          exact .refused graph (by simp)
      | ok value =>
          rw [editing_of_ok made, ending_map, commit]
          dsimp only
          cases encoded : graph.encode session.config none with
          | error cause => exact .refused graph (by simp)
          | ok spec => exact .written encoded

theorem commits_updateConfig (fields : Table Json) (session : Session) :
    Commits session true (session.updateConfig fields).1 (ending (session.updateConfig fields).2) := by
  -- not by its equation, which would try to evaluate the check of the fields
  delta updateConfig
  cases Spec.Config.ofFields (mergedFields session.config fields) with
  | error issues => exact .refused session.graph (by simp)
  | ok config =>
      dsimp only
      rw [keepConfig]
      dsimp only
      cases dumped : (configRecord config).dump? with
      | none => exact @Commits.unencodable _ session session.graph config session.spec dumped
      | some record =>
          let changed : Session := { session with config := config }
          have same : (changed.keepRecord record).graph.encode (changed.keepRecord record).config none =
              session.graph.encode config none := rfl
          dsimp only [andThen]
          rw [commit, same]
          cases encoded : session.graph.encode config none with
          | error cause => exact .named cause dumped
          | ok spec => exact .replaced encoded dumped

theorem load_of_decode {text spec record : Text} {decoded : Decoded}
    (found : Graph.decode text = .ok decoded)
    (encoded : decoded.graph.encode decoded.config none = .ok spec)
    (dumped : (configRecord decoded.config).dump? = some record) (session : Session) :
    session.load text =
      ((({ session with graph := decoded.graph, config := decoded.config, spec := spec } :
        Session).keepRecord record).keepSpec, .ok decoded.unresolved) := by
  rw [load, found]
  dsimp only
  rw [encoded]
  dsimp only
  rw [keepConfig]
  dsimp only
  rw [dumped]
  rfl

/-- A text is loaded with its fields, or nothing changes; but where the fields cannot be recorded,
they have changed already. -/
theorem load_cases (text : Text) (session : Session) :
    (∃ fault, fault ≠ .unencodable ∧ session.load text = (session, .error fault)) ∨
      ∃ decoded spec, Graph.decode text = .ok decoded ∧
        decoded.graph.encode decoded.config none = .ok spec ∧
        (((configRecord decoded.config).dump? = none ∧ session.load text =
            ({ session with graph := decoded.graph, config := decoded.config, spec := spec },
              .error .unencodable)) ∨
          ∃ record, (configRecord decoded.config).dump? = some record ∧ session.load text =
            ((({ session with graph := decoded.graph, config := decoded.config, spec := spec } :
              Session).keepRecord record).keepSpec, .ok decoded.unresolved)) := by
  cases found : Graph.decode text with
  | error cause =>
      refine .inl ⟨.read cause, by simp, ?_⟩
      rw [load, found]
  | ok decoded =>
      cases encoded : decoded.graph.encode decoded.config none with
      | error cause =>
          refine .inl ⟨.write cause, by simp, ?_⟩
          rw [load, found]
          dsimp only
          rw [encoded]
      | ok spec =>
          refine .inr ⟨decoded, spec, rfl, encoded, ?_⟩
          cases dumped : (configRecord decoded.config).dump? with
          | none =>
              refine .inl ⟨rfl, ?_⟩
              rw [load, found]
              dsimp only
              rw [encoded]
              dsimp only
              rw [keepConfig]
              dsimp only
              rw [dumped]
              rfl
          | some record => exact .inr ⟨record, rfl, load_of_decode found encoded dumped session⟩

theorem commits_load (text : Text) (session : Session) :
    Commits session true (session.load text).1 (ending (session.load text).2) := by
  rcases load_cases text session with
    ⟨fault, other, refused⟩ | ⟨decoded, spec, _, encoded, ⟨undumped, raised⟩ | ⟨record, dumped, loaded⟩⟩
  · rw [refused]
    exact .refused session.graph other
  · rw [raised]
    exact .unencodable undumped
  · rw [loaded]
    exact .replaced encoded dumped

/-- Restoring the graph is loading the stored text, if there is one, and a fault of its fields is not
passed over. -/
theorem restoreSpec_cases (session : Session) :
    session.restoreSpec = (session, .ok ()) ∨ ∃ text, session.store.get? Store.specKey = some text ∧
      text ≠ "" ∧ session.restoreSpec.1 = (session.load text).1 ∧
      (ending (session.load text).2 = .error .unencodable ↔
        session.restoreSpec.2 = .error .unencodable) := by
  rw [restoreSpec]
  cases session.store.get? Store.specKey with
  | none => exact .inl rfl
  | some text =>
      dsimp only
      split
      · exact .inl rfl
      · rename_i filled
        refine .inr ⟨text, rfl, filled, ?_⟩
        obtain ⟨after, outcome⟩ := session.load text
        cases outcome with
        | ok names => exact ⟨rfl, iff_of_false (by simp [ending, Except.map]) (by simp)⟩
        | error fault =>
            dsimp only
            split
            · rename_i passed
              refine ⟨rfl, iff_of_false (fun same => ?_) (by simp)⟩
              obtain rfl : fault = .unencodable := Except.error.inj same
              cases passed
            · exact ⟨rfl, by simp [ending, Except.map]⟩

theorem readStored_fault {key : Text} {default : Json} {fault : Fault}
    (failed : session.readStored key default = .error fault) : fault ≠ .unencodable := by
  rw [readStored] at failed
  split at failed
  · cases failed
  · split at failed
    · cases failed
    · split at failed <;> cases failed <;> simp

theorem settles_restoreConfig (session : Session) : Settles session session.restoreConfig := by
  -- not by its equation, which would try to evaluate the check of the fields
  delta restoreConfig
  cases read : session.readStored Store.configKey (.object []) with
  | error fault => exact settles_error (readStored_fault read)
  | ok value =>
      cases value with
      | object fields =>
          dsimp only
          generalize Spec.Config.ofFields _ = checked
          cases checked with
          | error issues => exact settles_error (by simp)
          | ok config => exact settles_ok ⟨rfl, rfl, rfl⟩
      | _ => exact settles_ok ⟨rfl, rfl, rfl⟩

theorem settles_restoreSkip (session : Session) : Settles session session.restoreSkip := by
  rw [restoreSkip]
  split
  · rename_i fault read
    exact settles_error (readStored_fault read)
  · split
    · exact settles_ok ⟨rfl, rfl, rfl⟩
    · exact settles_error (by simp)

theorem settles_restoreTemplates (session : Session) : Settles session session.restoreTemplates := by
  rw [restoreTemplates]
  split
  · rename_i fault read
    exact settles_error (readStored_fault read)
  · split
    · exact settles_ok ⟨rfl, rfl, rfl⟩
    · exact settles_error (by simp)

def restoreSettings (session : Session) : Session × Except Fault Unit :=
  restoreConfig session
    |> andThen (fun session => restoreSkip session.restoreLanguage)
    |> andThen restoreTemplates

theorem restore_eq (session : Session) :
    session.restore = andThen restoreSpec session.restoreSettings := rfl

theorem settles_restoreSettings (session : Session) : Settles session session.restoreSettings := by
  refine settles_andThen (settles_andThen (settles_restoreConfig session) fun session => ?_)
    settles_restoreTemplates
  have skipped := settles_restoreSkip session.restoreLanguage
  exact ⟨(sameWork_restoreLanguage session).trans skipped.same, skipped.other⟩

/-- Restoring stops at a setting that it refuses, or goes on to the graph. -/
theorem restore_cases (session : Session) :
    ∃ reached, SameWork session reached ∧
      ((∃ fault, fault ≠ .unencodable ∧ session.restore = (reached, .error fault)) ∨
        session.restore = reached.restoreSpec) := by
  have settles := settles_restoreSettings session
  rw [restore_eq]
  cases settled : session.restoreSettings with
  | mk reached outcome =>
      rw [settled] at settles
      cases outcome with
      | error fault =>
          exact ⟨reached, settles.same, .inl ⟨fault, fun same => settles.other (congrArg _ same), rfl⟩⟩
      | ok => exact ⟨reached, settles.same, .inr rfl⟩

/-- Operations after which the specification is written anew. -/
def Operation.commits : Operation → Bool
  | .setSkip _ | .selectTemplate _ _ | .request _ | .restore | .reset => false
  | _ => true

/-- Operations that change the naming fields, and record them. -/
def Operation.names : Operation → Bool
  | .updateConfig _ | .setLanguage _ | .load _ => true
  | _ => false

theorem commits_withOutcome {names : Bool} (make : α → Outcome) (result : Session × Except Fault α)
    (commits : Commits session names result.1 (ending result.2)) :
    Commits session names (withOutcome make result).1 (ending (withOutcome make result).2) := by
  rw [withOutcome, ending_map]
  exact commits

theorem commits_perform {operation : Operation} (commits : operation.commits = true)
    (session : Session) :
    Commits session operation.names (session.perform operation).1
      (ending (session.perform operation).2) := by
  cases operation with
  | addStep label position =>
      exact commits_withOutcome .node (session.addStep label position) (commits_editing _ session)
  | renameStep id label =>
      exact commits_withOutcome _ (session.renameStep id label) (commits_editing _ session)
  | removeStep id => exact commits_withOutcome _ (session.removeStep id) (commits_editing _ session)
  | connect source target =>
      exact commits_withOutcome .edge (session.connect source target) (commits_editing _ session)
  | disconnect id => exact commits_withOutcome _ (session.disconnect id) (commits_editing _ session)
  | toggleBranch id =>
      exact commits_withOutcome .edge (session.toggleBranch id) (commits_editing _ session)
  | renameCondition source label =>
      exact commits_withOutcome _ (session.renameCondition source label) (commits_editing _ session)
  | updateConfig fields =>
      exact commits_withOutcome _ (session.updateConfig fields) (commits_updateConfig fields session)
  | setLanguage language =>
      exact commits_withOutcome _ (session.setLanguage language) (commits_updateConfig _ session)
  | load text => exact commits_withOutcome .names (session.load text) (commits_load text session)
  | _ => cases commits

/-- The specification is that of the graph, and the store holds it with the labels of its groups. -/
structure Committed (session : Session) : Prop where
  spec : session.graph.encode session.config none = .ok session.spec
  stored : session.store.get? Store.specKey = some session.spec
  labels : session.store.get? Store.labelsKey =
    some ((Json.textTable session.graph.conditionLabels).write .spaced)

theorem committed_keepSpec (works : session.store.Works)
    (encoded : session.graph.encode session.config none = .ok session.spec) :
    session.keepSpec.Committed :=
  ⟨encoded, get?_keepSpec works Store.specKey, get?_keepSpec works Store.labelsKey⟩

theorem Stable.commits (stable : Stable p) {names : Bool} {result : Except Fault Unit}
    (commits : Commits before names after result) (holds : p before.store) : p after.store := by
  cases commits with
  | refused graph _ => exact holds
  | @named config record _ _ => exact @Stable.keepRecord { before with config := config } p stable record holds
  | unencodable _ => exact holds
  | @written graph spec _ => exact stable.keep _ _ holds
  | @replaced graph config spec record _ _ =>
      exact stable.keep _ _ (@Stable.keepRecord
        { before with graph := graph, config := config, spec := spec } p stable record holds)

theorem Stable.restore (stable : Stable p) (holds : p session.store) : p session.restore.1.store := by
  obtain ⟨reached, same, rest⟩ := restore_cases session
  have reachedHolds : p reached.store := by
    rw [same.store]
    exact holds
  rcases rest with ⟨fault, _, stopped⟩ | led
  · rw [stopped]
    exact reachedHolds
  · rw [led]
    rcases restoreSpec_cases reached with unchanged | ⟨text, _, _, loaded, _⟩
    · rw [unchanged]
      exact reachedHolds
    · rw [loaded]
      exact stable.commits (commits_load text reached) reachedHolds

theorem Stable.perform (stable : Stable p) (operation : Operation) (holds : p session.store) :
    p (session.perform operation).1.store := by
  cases commits : operation.commits with
  | true => exact stable.commits (commits_perform commits session) holds
  | false =>
      cases operation with
      | setSkip skip => exact stable.put _ (by decide) holds
      | selectTemplate templateType template => exact stable.put _ (by decide) holds
      | request language => exact holds
      | restore => exact stable.restore holds
      | reset => exact stable.forget holds
      | _ => cases commits

theorem Stable.run (stable : Stable p) (operations : List Operation) (holds : p session.store) :
    p (session.run operations).store := by
  induction operations generalizing session with
  | nil => exact holds
  | cons operation rest ih => exact ih (stable.perform operation holds)

theorem works_run (operations : List Operation) (works : session.store.Works) :
    (session.run operations).store.Works :=
  stable_works.run operations works

/-- Where naming fields cannot be recorded, nothing is kept at all. -/
theorem Commits.unrecorded {names : Bool} (commits : Commits before names after (.error .unencodable)) :
    after.store = before.store ∧ (configRecord after.config).dump? = none := by
  cases commits with
  | refused graph other => exact absurd rfl other
  | unencodable undumped => exact ⟨rfl, undumped⟩

theorem Commits.committed {names : Bool} (commits : Commits before names after (.ok ()))
    (works : before.store.Works) : after.Committed := by
  cases commits with
  | @written graph spec encoded =>
      exact @committed_keepSpec { before with graph := graph, spec := spec } _ works encoded
  | @replaced graph config spec record encoded _ =>
      exact committed_keepSpec
        (@works_keepRecord { before with graph := graph, config := config, spec := spec } works record)
        encoded

end Session

end Workflow
