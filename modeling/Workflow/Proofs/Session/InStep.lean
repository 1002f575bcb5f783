import Workflow.Proofs.Json.TextTable
import Workflow.Proofs.Session.Commit

/-! A session and its store stay in step. Edits may fail and settings may be restored in the middle of
a run; the store holds the specification of the session and its naming fields all the same. -/

namespace Workflow

namespace Spec

/-- The naming fields that a store holds: its record, with its language among them. -/
def Config.ofStore? [Host] (store : Store) : Option Config :=
  match (store.get? Store.configKey).map Json.read, store.get? Store.languageKey with
  | some (.ok (.object fields)), some word =>
    (Config.ofFields (Table.put "language" (.text word) fields)).toOption
  | _, _ => none

theorem Config.nodup_keys (config : Config) : config.entries.keys.Nodup := by
  rw [keys_entries]
  decide

theorem Config.ofFields_entries (config : Config) :
    Config.ofFields (config.entries.map fun (key, value) => (key, Json.text value)) = .ok config :=
  ofJson_toJson .modelType config

theorem Config.ofFields_record (config : Config) :
    Config.ofFields (Table.put "language" (.text config.language.word)
      ((config.entries.erase "language").map fun entry => (entry.1, Json.text entry.2))) =
        .ok config := by
  cases config
  rename_i language _ _ _
  cases language <;> rfl

end Spec

namespace Session

/-- The store holds the naming fields as they are. -/
def Records (session : Session) : Prop :=
  session.store.get? Store.configKey = some ((configRecord session.config).write .compact) ∧
    session.store.get? Store.languageKey = some session.config.language.word

/-- The store holds the naming fields as they are, or none yet. -/
def KeepsConfig (session : Session) : Prop :=
  (session.store.get? Store.configKey = none ∧ session.store.get? Store.languageKey = none) ∨
    session.Records

/-- The store holds the specification, unless it is empty, and labels of groups just with it. -/
structure KeepsSpec (session : Session) : Prop where
  spec : session.store.get? Store.specKey = if session.spec = "" then none else some session.spec
  labels : (session.store.get? Store.labelsKey).isSome = (session.store.get? Store.specKey).isSome

/-- What a run over a working store keeps true. -/
structure Kept (session : Session) : Prop where
  works : session.store.Works
  config : session.KeepsConfig
  spec : session.KeepsSpec

variable {session : Session}

theorem naming_apart {key : Text} (naming : key ∈ [Store.configKey, Store.languageKey]) :
    key ≠ Store.labelsKey ∧ key ≠ Store.specKey := by
  rcases List.mem_pair.mp naming with rfl | rfl
  · exact ⟨Store.labelsKey_ne_configKey.symm, Store.specKey_ne_configKey.symm⟩
  · exact ⟨Store.labelsKey_ne_languageKey.symm, Store.specKey_ne_languageKey.symm⟩

theorem Records.of_same {other : Session} (records : session.Records)
    (config : other.config = session.config)
    (same : ∀ key ∈ [Store.configKey, Store.languageKey],
      other.store.get? key = session.store.get? key) : other.Records := by
  rw [Records, config, same _ List.mem_cons_self, same _ (List.mem_cons_of_mem _ List.mem_cons_self)]
  exact records

theorem KeepsConfig.of_same {other : Session} (keeps : session.KeepsConfig)
    (config : other.config = session.config)
    (same : ∀ key ∈ [Store.configKey, Store.languageKey],
      other.store.get? key = session.store.get? key) : other.KeepsConfig := by
  rcases keeps with absent | records
  · rw [KeepsConfig, same _ List.mem_cons_self, same _ (List.mem_cons_of_mem _ List.mem_cons_self)]
    exact .inl absent
  · exact .inr (records.of_same config same)

theorem KeepsSpec.of_same {other : Session} (keeps : session.KeepsSpec)
    (spec : other.spec = session.spec)
    (same : ∀ key ∈ [Store.labelsKey, Store.specKey],
      other.store.get? key = session.store.get? key) : other.KeepsSpec := by
  have labels := same _ List.mem_cons_self
  have saved := same _ (List.mem_cons_of_mem _ List.mem_cons_self)
  constructor
  · rw [saved, spec]
    exact keeps.spec
  · rw [labels, saved]
    exact keeps.labels

theorem Kept.changed (kept : session.Kept) {other : Session} (store : other.store = session.store)
    (config : other.config = session.config) (spec : other.spec = session.spec) : other.Kept := by
  have same (key : Text) : other.store.get? key = session.store.get? key := by rw [store]
  exact ⟨store ▸ kept.works, kept.config.of_same config fun key _ => same key,
    kept.spec.of_same spec fun key _ => same key⟩

theorem kept_start (config : Spec.Config) : (start (.ofTable []) config).Kept := by
  have absent (key : Text) : (start (.ofTable []) config).store.get? key = none := rfl
  exact ⟨fun _ => rfl, .inl ⟨absent _, absent _⟩, (if_pos rfl).symm, by rw [absent, absent]⟩

theorem kept_keep (kept : session.Kept) {key : Text} (value : Text)
    (other : key ∉ [Store.labelsKey, Store.specKey] ++ [Store.configKey, Store.languageKey]) :
    (session.keep key value).Kept := by
  have same (name : Text)
      (member : name ∈ [Store.labelsKey, Store.specKey] ++ [Store.configKey, Store.languageKey]) :
      (session.keep key value).store.get? name = session.store.get? name :=
    Store.get?_put_of_ne (fun equal : name = key => other (equal ▸ member)) value session.store
  constructor
  · exact Store.works_put kept.works key value
  · exact kept.config.of_same rfl fun name naming => same name (List.mem_append_right _ naming)
  · exact kept.spec.of_same rfl fun name saved => same name (List.mem_append_left _ saved)

theorem write_of_dump? {config : Spec.Config} {record : Text}
    (dumped : (configRecord config).dump? = some record) :
    record = (configRecord config).write .compact := by
  rw [Json.dump?] at dumped
  split at dumped
  · rw [← Option.some.inj dumped, configRecord, Json.dumped_textTable]
  · cases dumped

theorem records_keepRecord (works : session.store.Works) {record : Text}
    (dumped : (configRecord session.config).dump? = some record) :
    (session.keepRecord record).Records := by
  obtain rfl := write_of_dump? dumped
  constructor
  · rw [get?_keepRecord works, if_neg Store.configKey_ne_languageKey, if_pos rfl]
    rfl
  · rw [get?_keepRecord works, if_pos rfl]
    rfl

theorem keepsSpec_keepRecord (works : session.store.Works) (record : Text)
    (keeps : session.KeepsSpec) : (session.keepRecord record).KeepsSpec := by
  refine keeps.of_same rfl fun key saved => ?_
  rcases List.mem_pair.mp saved with rfl | rfl
  · rw [get?_keepRecord works, if_neg Store.labelsKey_ne_languageKey,
      if_neg Store.labelsKey_ne_configKey]
  · rw [get?_keepRecord works, if_neg Store.specKey_ne_languageKey, if_neg Store.specKey_ne_configKey]

theorem naming_keepSpec (works : session.store.Works) :
    ∀ key ∈ [Store.configKey, Store.languageKey],
      session.keepSpec.store.get? key = session.store.get? key := by
  intro key naming
  rw [get?_keepSpec works, if_neg (naming_apart naming).1, if_neg (naming_apart naming).2]

theorem Records.keepSpec (records : session.Records) (works : session.store.Works) :
    session.keepSpec.Records :=
  records.of_same rfl (naming_keepSpec works)

theorem kept_keepSpec (works : session.store.Works) (config : session.KeepsConfig)
    (filled : session.spec ≠ "") : session.keepSpec.Kept := by
  have spec : session.keepSpec.store.get? Store.specKey = some session.spec := by
    rw [get?_keepSpec works, if_neg Store.specKey_ne_labelsKey, if_pos rfl]
  constructor
  · exact works_keepSpec works
  · exact config.of_same rfl (naming_keepSpec works)
  · constructor
    · rw [spec]
      exact (if_neg filled).symm
    · rw [spec, get?_keepSpec works, if_pos rfl]
      rfl

theorem nodup_record (config : Spec.Config) : (config.entries.erase "language").keys.Nodup :=
  config.nodup_keys.sublist (List.filter_sublist.map Prod.fst)

theorem mergedFields_same {config : Spec.Config} {fields : Table Json}
    (known : ∀ key value, (key, value) ∈ fields →
      Table.get? key (config.entries.map fun (key, value) => (key, Json.text value)) = some value) :
    mergedFields config fields = config.entries.map fun (key, value) => (key, Json.text value) :=
  Table.foldl_put_same known

theorem restoreLanguage_of_kept (keeps : session.KeepsConfig) :
    session.restoreLanguage = session := by
  rw [restoreLanguage]
  rcases keeps with ⟨_, absent⟩ | ⟨_, stored⟩
  · rw [absent, Option.bind_none]
  · rw [stored, Option.bind_some, Language.ofWord?_word]

theorem kept_andThen {next : Session → Session × Except Fault Unit}
    {before : Session × Except Fault Unit} (kept : before.1.Kept)
    (keeps : ∀ session : Session, session.Kept → (next session).1.Kept) :
    (andThen next before).1.Kept := by
  obtain ⟨session, result⟩ := before
  cases result with
  | ok => exact keeps session kept
  | error fault => exact kept

theorem kept_reset (kept : session.Kept) : session.reset.Kept := by
  have after (name : Text) : session.reset.store.get? name =
      if name = Store.labelsKey then none
      else if name = Store.specKey then none
      else session.store.get? name := by
    rw [reset, Store.get?_delete, Store.get?_delete]
  have blank : session.reset.store.get? Store.specKey = none := by
    rw [after, if_neg Store.specKey_ne_labelsKey, if_pos rfl]
  constructor
  · exact kept.works
  · refine kept.config.of_same rfl fun key naming => ?_
    rw [after, if_neg (naming_apart naming).1, if_neg (naming_apart naming).2]
  · constructor
    · rw [blank]
      exact (if_pos rfl).symm
    · rw [blank, after, if_pos rfl]

theorem stable_paired : Stable fun store => store.Works ∧
    (store.get? Store.labelsKey).isSome = (store.get? Store.specKey).isSome where
  put value other holds := by
    simp only [List.mem_cons, List.not_mem_nil, or_false, not_or] at other
    refine ⟨Store.works_put holds.1 _ _, ?_⟩
    rw [Store.get?_put_of_ne (Ne.symm other.1), Store.get?_put_of_ne (Ne.symm other.2)]
    exact holds.2
  keep spec labels holds := by
    have works := Store.works_put holds.1 Store.specKey spec
    refine ⟨Store.works_put works _ _, ?_⟩
    rw [Store.get?_put_self (works 0), Store.get?_put_of_ne (by decide), Store.get?_put_self (holds.1 0)]
    rfl
  forget holds := by
    have gone (store : Store) (key : Text) : (store.delete key).get? key = none :=
      Table.get?_erase_self key store.values
    have other (store : Store) : (store.delete Store.labelsKey).get? Store.specKey =
        store.get? Store.specKey := Table.get?_erase_of_ne (by decide) store.values
    exact ⟨holds.1, by rw [gone, other, gone]⟩

section Kept

variable [Host]

theorem Commits.kept {names : Bool} {after : Session} {result : Except Fault Unit}
    (commits : Commits session names after result) (recorded : result ≠ .error .unencodable)
    (kept : session.Kept) : after.Kept := by
  cases commits with
  | refused graph _ => exact kept.changed rfl rfl rfl
  | @named config record cause dumped =>
      let changed : Session := { session with config := config }
      have spec : (changed.keepRecord record).KeepsSpec :=
        @keepsSpec_keepRecord changed kept.works record ⟨kept.spec.spec, kept.spec.labels⟩
      exact ⟨@works_keepRecord changed kept.works record,
        .inr (@records_keepRecord changed kept.works record dumped),
        spec⟩
  | unencodable _ => exact absurd rfl recorded
  | @written graph spec encoded =>
      exact @kept_keepSpec { session with graph := graph, spec := spec } kept.works kept.config
        (Graph.encode_ne_empty encoded)
  | @replaced graph config spec record encoded dumped =>
      let changed : Session := { session with graph := graph, config := config, spec := spec }
      exact kept_keepSpec (@works_keepRecord changed kept.works record)
        (.inr (@records_keepRecord changed kept.works record dumped)) (Graph.encode_ne_empty encoded)

theorem readStored_configKey (keeps : session.KeepsConfig) :
    ∃ fields, session.readStored Store.configKey (.object []) = .ok (.object fields) ∧
      ∀ key value, (key, value) ∈ fields →
        Table.get? key (session.config.entries.map fun (key, value) => (key, Json.text value)) =
          some value := by
  rcases keeps with ⟨absent, _⟩ | ⟨stored, _⟩
  · refine ⟨[], ?_, fun key value member => absurd member List.not_mem_nil⟩
    rw [readStored, absent]
  · have read := Json.read_textTable (nodup_record session.config)
    have filled : (configRecord session.config).write .compact ≠ "" := by
      intro empty
      rw [← configRecord, empty] at read
      cases read
    refine ⟨Json.textFields (session.config.entries.erase "language"), ?_, ?_⟩
    · rw [readStored, stored]
      dsimp only
      rw [if_neg filled, configRecord, read]
      rfl
    · intro key value member
      obtain ⟨entry, inside, same⟩ := List.mem_map.mp member
      apply Table.get?_of_mem
      · rw [Table.keys, List.map_map]
        exact session.config.nodup_keys
      · exact List.mem_map.mpr ⟨entry, List.mem_of_mem_filter inside, same⟩

theorem restoreConfig_of_kept (keeps : session.KeepsConfig) :
    session.restoreConfig = (session, .ok ()) := by
  obtain ⟨fields, stored, known⟩ := readStored_configKey keeps
  -- not by its equation, which would try to evaluate the check of the fields
  delta restoreConfig
  rw [stored]
  dsimp only
  rw [mergedFields_same fun key value member => known key value (List.mem_of_mem_filter member),
    Spec.Config.ofFields_entries]

theorem kept_restoreSkip (kept : session.Kept) : session.restoreSkip.1.Kept := by
  rw [restoreSkip]
  split
  · exact kept
  · split
    · exact kept.changed rfl rfl rfl
    · exact kept

theorem kept_restoreTemplates (kept : session.Kept) : session.restoreTemplates.1.Kept := by
  rw [restoreTemplates]
  split
  · exact kept
  · split
    · exact kept.changed rfl rfl rfl
    · exact kept

theorem kept_restoreSpec (recorded : session.restoreSpec.2 ≠ .error .unencodable)
    (kept : session.Kept) : session.restoreSpec.1.Kept := by
  rcases restoreSpec_cases session with same | ⟨text, _, _, loaded, raised⟩
  · rw [same]
    exact kept
  · rw [loaded]
    exact (commits_load text session).kept (fun same => recorded (raised.mp same)) kept

theorem kept_restoreSettings (kept : session.Kept) : session.restoreSettings.1.Kept := by
  rw [restoreSettings, restoreConfig_of_kept kept.config]
  refine kept_andThen (kept_andThen kept ?_) ?_
  · intro session kept
    rw [restoreLanguage_of_kept kept.config]
    exact kept_restoreSkip kept
  · exact fun _ => kept_restoreTemplates

theorem kept_restore (recorded : session.restore.2 ≠ .error .unencodable) (kept : session.Kept) :
    session.restore.1.Kept := by
  have settled := kept_restoreSettings kept
  rw [restore_eq] at recorded ⊢
  revert settled recorded
  rcases session.restoreSettings with ⟨reached, _ | _⟩
  · exact fun _ settled => settled
  · exact fun recorded settled => kept_restoreSpec recorded settled

theorem kept_perform {operation : Operation}
    (recorded : (session.perform operation).2 ≠ .error .unencodable) (kept : session.Kept) :
    (session.perform operation).1.Kept := by
  cases commits : operation.commits with
  | true =>
      refine (commits_perform commits session).kept (fun raised => recorded ?_) kept
      exact ending_eq_error_iff.mp raised
  | false =>
      cases operation with
      | setSkip skip =>
          have changed : ({ session with skip := skip } : Session).Kept := kept.changed rfl rfl rfl
          exact kept_keep changed _ (by decide +kernel)
      | selectTemplate templateType template =>
          have changed (templates : Choices) :
              ({ session with templates := templates } : Session).Kept := kept.changed rfl rfl rfl
          exact kept_keep (changed _) _ (by decide +kernel)
      | request language => exact kept
      | restore =>
          exact kept_restore (fun raised => recorded (congrArg (Except.map fun _ => Outcome.nothing) raised))
            kept
      | reset => exact kept_reset kept
      | _ => cases commits

/-- No call of a run ends because the naming fields that it comes to have no encoding. -/
def records : List Operation → Session → Bool
  | [], _ => true
  | operation :: rest, session =>
    (session.perform operation).2 != .error .unencodable && records rest (session.perform operation).1

theorem kept_run {operations : List Operation} (recorded : session.records operations = true)
    (kept : session.Kept) : (session.run operations).Kept := by
  induction operations generalizing session with
  | nil => exact kept
  | cons operation rest ih =>
      obtain ⟨here, later⟩ := Bool.and_eq_true_iff.mp recorded
      exact ih later (kept_perform (bne_iff_ne.mp here) kept)

/-- The store holds the specification of the session unless this is empty, labels of groups just with
it, and no naming fields or those of the session. -/
structure InStep (session : Session) : Prop where
  spec : session.store.get? Store.specKey = if session.spec = "" then none else some session.spec
  labels : (session.store.get? Store.labelsKey).isSome = (session.store.get? Store.specKey).isSome
  config : (session.store.get? Store.configKey = none ∧ session.store.get? Store.languageKey = none) ∨
    Spec.Config.ofStore? session.store = some session.config

theorem ofStore?_of_records (records : session.Records) :
    Spec.Config.ofStore? session.store = some session.config := by
  have read := Json.read_textTable (nodup_record session.config)
  rw [Spec.Config.ofStore?, records.1, records.2, Option.map_some, configRecord, read]
  exact congrArg Except.toOption (Spec.Config.ofFields_record session.config)

theorem Kept.inStep (kept : session.Kept) : session.InStep := by
  refine ⟨kept.spec.spec, kept.spec.labels, ?_⟩
  rcases kept.config with absent | records
  · exact .inl absent
  · exact .inr (ofStore?_of_records records)

theorem Commits.records {after : Session} (commits : Commits session true after (.ok ()))
    (works : session.store.Works) : after.Records := by
  cases commits with
  | @replaced graph config spec record _ dumped =>
      let changed : Session := { session with graph := graph, config := config, spec := spec }
      exact (@records_keepRecord changed works record dumped).keepSpec
        (@works_keepRecord changed works record)

theorem request_fault (language : Option Text) (session : Session) :
    session.request language ≠ .error .unencodable := by
  -- not by its equation, which would try to evaluate the checks
  delta request
  cases session.encodeFor language with
  | error cause => simp
  | ok spec =>
      dsimp only
      generalize Checked.arg _ _ = checked
      cases checked <;> simp [Except.mapError]

theorem unrecorded_perform {operation : Operation}
    (raised : (session.perform operation).2 = .error .unencodable) :
    (session.perform operation).1.store = session.store ∧
      (configRecord (session.perform operation).1.config).dump? = none := by
  cases commits : operation.commits with
  | true =>
      have done := commits_perform commits session
      rw [ending_eq_error_iff.mpr raised] at done
      exact done.unrecorded
  | false =>
      cases operation with
      | restore =>
          have restoring : session.restore.2 = .error .unencodable := ending_eq_error_iff.mp
            ((ending_map _ _).symm.trans (ending_eq_error_iff.mpr raised))
          show session.restore.1.store = _ ∧ (configRecord session.restore.1.config).dump? = none
          obtain ⟨reached, same, ⟨fault, other, stopped⟩ | led⟩ := restore_cases session
          · rw [stopped] at restoring
            exact absurd (Except.error.inj restoring) other
          · rw [led] at restoring ⊢
            rcases restoreSpec_cases reached with unchanged | ⟨text, _, _, loaded, ends⟩
            · rw [unchanged] at restoring
              cases restoring
            · have done := commits_load text reached
              rw [ends.mpr restoring] at done
              rw [loaded, ← same.store]
              exact done.unrecorded
      | request language =>
          exact absurd (ending_eq_error_iff.mp
            ((ending_map _ _).symm.trans (ending_eq_error_iff.mpr raised))) (request_fault language session)
      | setSkip skip => cases raised
      | selectTemplate templateType template => cases raised
      | reset => cases raised
      | _ => cases commits

/-- A session over a working store and the store stay in step, as long as no call ends because the
naming fields that it comes to have no encoding; such a call changes the session and not the store.
Labels are kept just with a specification in any case. And whenever an edit, a change of naming fields
or a load succeeds, the specification is that of the graph, and naming fields that have changed are kept. -/
theorem session_in_step (config : Spec.Config) (operations : List Operation) :
    let reached := (start (.ofTable []) config).run operations
    ((start (.ofTable []) config).records operations = true → reached.InStep) ∧
      (reached.store.get? Store.labelsKey).isSome = (reached.store.get? Store.specKey).isSome ∧
      ∀ operation : Operation,
        (operation.commits = true → ∀ outcome, (reached.perform operation).2 = .ok outcome →
          (reached.perform operation).1.Committed ∧ (operation.names = true →
            Spec.Config.ofStore? (reached.perform operation).1.store =
              some (reached.perform operation).1.config)) ∧
        ((reached.perform operation).2 = .error .unencodable →
          (reached.perform operation).1.store = reached.store ∧
            (configRecord (reached.perform operation).1.config).isEncodable = false) := by
  intro reached
  have begun := kept_start config
  obtain ⟨works, paired⟩ := stable_paired.run operations ⟨begun.works, begun.spec.labels⟩
  refine ⟨fun recorded => (kept_run recorded begun).inStep, paired, fun operation => ⟨?_, fun raised => ?_⟩⟩
  · intro commits outcome succeeded
    have done := commits_perform commits reached
    rw [succeeded] at done
    refine ⟨done.committed works, fun names => ?_⟩
    rw [names] at done
    exact ofStore?_of_records (done.records works)
  · obtain ⟨unchanged, undumped⟩ := unrecorded_perform raised
    refine ⟨unchanged, ?_⟩
    simpa [Json.dump?] using undumped

end Kept

/-- An edit and a change of language that leave a graph without a text. -/
def unwritten : List Operation :=
  [.restore, .addStep (some "") none, .connect "source" "step-1", .setLanguage (.text "typescript")]

def terse : Spec.Config := ⟨"a", "b", "c", "d", "e", "f", "g", "h", .python, "i", "j", "k"⟩

section Usual

attribute [local instance] Host.usual

theorem session_in_step_mended :
    (start (.ofTable []) terse).records unwritten = true ∧
      ((start (.ofTable []) terse).run unwritten).InStep ∧
      ∃ outcome, (((start (.ofTable []) terse).run unwritten).perform (.renameStep "step-1" "a")).2 =
          .ok outcome ∧
        (((start (.ofTable []) terse).run unwritten).perform (.renameStep "step-1" "a")).1.Committed := by
  have recorded : (start (.ofTable []) terse).records unwritten = true := by decide +kernel
  obtain ⟨inStep, _, further⟩ := session_in_step terse unwritten
  have ok : (((start (.ofTable []) terse).run unwritten).perform
      (.renameStep "step-1" "a")).2.isOk = true := by decide +kernel
  cases succeeded : (((start (.ofTable []) terse).run unwritten).perform (.renameStep "step-1" "a")).2 with
  | error fault =>
      rw [succeeded] at ok
      cases ok
  | ok outcome =>
      exact ⟨recorded, inStep recorded, outcome, rfl, ((further _).1 rfl outcome succeeded).1⟩

/-- Half of a pair in a name: the text is taken over, and then neither the fields nor the text is kept. -/
def halfNamed : Text := "name: \x22\\ud800\x22"

theorem half_named_unkept :
    ¬ ∀ config operations, ((start (.ofTable []) config).run operations).InStep := by
  intro all
  have unkept : ((start (.ofTable []) terse).run [.load halfNamed]).store.get? Store.specKey = none ∧
      ((start (.ofTable []) terse).run [.load halfNamed]).spec ≠ "" := by decide +kernel
  have kept := (all terse [.load halfNamed]).spec
  rw [unkept.1, if_neg unkept.2] at kept
  cases kept

end Usual

end Session

end Workflow
