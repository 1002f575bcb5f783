import Workflow.Proofs.Session.Settings
import Workflow.Proofs.Spec.Faults

/-! Starting up with what a store holds. The graph is the stored one or the empty one, and the settings
are taken over one by one; whether this comes to an end depends on each of them. -/

namespace Workflow

namespace Json

/-- Two parts, with a first one that can be a key. -/
def IsPair (part : Json) : Prop :=
  ∃ key content, part.parts? = some [key, content] ∧ key.isPlain = true

/-- Objects, and values made of pairs. -/
def IsPairing (value : Json) : Prop :=
  (∃ fields, value = .object fields) ∨ ∃ parts, value.parts? = some parts ∧ ∀ part ∈ parts, part.IsPair

end Json

namespace Choices

theorem exists_pairOf_iff {part : Json} : (∃ pair, pairOf part = .ok pair) ↔ part.IsPair := by
  unfold pairOf Json.IsPair
  split
  · rename_i bare
    simp [bare]
  · rename_i key content parts
    rw [parts]
    cases plain : key.isPlain with
    | true => exact iff_of_true ⟨_, rfl⟩ ⟨key, content, rfl, plain⟩
    | false => simp [plain]
  · rename_i parts other found
    rw [found]
    refine iff_of_false (fun ⟨pair, read⟩ => by cases read) ?_
    rintro ⟨key, content, same, _⟩
    exact other key content (Option.some.inj same)

theorem exists_addAll_iff {choices : Choices} {parts : List Json} :
    (∃ result, addAll choices parts = .ok result) ↔ ∀ part ∈ parts, part.IsPair := by
  induction parts generalizing choices with
  | nil => simp [addAll]
  | cons part rest ih =>
      rw [List.forall_mem_cons, ← exists_pairOf_iff, addAll]
      cases pairOf part with
      | error fault => simp
      | ok pair => simpa using ih

/-- Choices can be taken from an object and from pairs, and from nothing else. -/
theorem exists_ofJson_iff {value : Json} :
    (∃ choices, ofJson value = .ok choices) ↔ value.IsPairing := by
  cases value with
  | object fields => exact iff_of_true ⟨_, rfl⟩ (.inl ⟨fields, rfl⟩)
  | array items =>
      simp only [ofJson, Json.parts?, exists_addAll_iff]
      simp [Json.IsPairing, Json.parts?]
  | text content =>
      simp only [ofJson, Json.parts?, exists_addAll_iff]
      simp [Json.IsPairing, Json.parts?]
  | _ => simp [ofJson, Json.IsPairing, Json.parts?]

end Choices

namespace Store

/-- The stored specification can be read, and the graph that it describes can be written. -/
def Loads [Host] (store : Store) (decoded : Decoded) (spec : Text) : Prop :=
  ∃ text, store.get? specKey = some text ∧ text ≠ "" ∧ Graph.decode text = .ok decoded ∧
    decoded.graph.encode decoded.config none = .ok spec

/-- The stored specification fails for no reason that its author would be told, or it is taken over and
its naming fields have no record. -/
def BreaksLoading [Host] (store : Store) : Prop :=
  ∃ text, store.get? specKey = some text ∧ text ≠ "" ∧
    (Spec.BreaksReading text ∨
      ∃ decoded, Graph.decode text = .ok decoded ∧
        (decoded.graph.BreaksWriting decoded.config ∨
          (∃ spec, decoded.graph.encode decoded.config none = .ok spec) ∧
            (Session.configRecord decoded.config).isEncodable = false))

theorem Loads.breaksLoading [Host] {store : Store} {decoded : Decoded} {spec : Text}
    (loads : store.Loads decoded spec) (undumped : (Session.configRecord decoded.config).dump? = none) :
    store.BreaksLoading := by
  obtain ⟨text, stored, filled, found, encoded⟩ := loads
  exact ⟨text, stored, filled, .inr ⟨decoded, found, .inr ⟨⟨spec, encoded⟩, by
    simpa [Json.dump?] using undumped⟩⟩⟩

def language? (store : Store) : Option Language := (store.get? languageKey).bind Language.ofWord?

/-- Each setting is one that a session can take over, or no data at all. -/
structure IsUsable [Host] (store : Store) : Prop where
  config : ∃ value, store.Holds configKey (.object []) value ∧ Spec.Config.Accepts value
  skip : ∃ value, store.Holds skipKey (.array []) value ∧ value.parts?.isSome
  templates : ∃ value, store.Holds templatesKey (.object []) value ∧ value.IsPairing
  spec : ¬store.BreaksLoading

end Store

namespace Session

variable {session reached restored : Session} {store : Store} {config : Spec.Config}
  {decoded : Decoded} {spec : Text}

theorem andThen_eq_ok_iff {next : Session → Session × Except Fault Unit}
    {result : Session × Except Fault Unit} :
    andThen next result = (reached, .ok ()) ↔
      ∃ before, result = (before, .ok ()) ∧ next before = (reached, .ok ()) := by
  obtain ⟨before, outcome⟩ := result
  cases outcome with
  | error fault => simp [andThen]
  | ok => simp [andThen]

theorem restoreLanguage_eq (session : Session) :
    session.restoreLanguage = { session with
      config := { session.config with
        language := session.store.language?.getD session.config.language } } := by
  rw [restoreLanguage, Store.language?]
  split
  · rename_i language known
    rw [known, Option.getD_some]
  · rename_i unknown
    rw [unknown, Option.getD_none]

section Starting

variable [Host]

theorem restoreSpec_of_loads {record : Text} (loads : session.store.Loads decoded spec)
    (dumped : (configRecord decoded.config).dump? = some record) :
    session.restoreSpec = ((({ session with
      graph := decoded.graph, config := decoded.config, spec := spec } : Session).keepRecord
        record).keepSpec, .ok ()) := by
  obtain ⟨text, stored, filled, found, encoded⟩ := loads
  rw [restoreSpec, stored]
  dsimp only
  rw [if_neg filled, load_of_decode found encoded dumped]

theorem restoreSpec_of_not_loads (unloaded : ∀ decoded spec, ¬session.store.Loads decoded spec) :
    session.restoreSpec.1 = session := by
  rw [restoreSpec]
  cases stored : session.store.get? Store.specKey with
  | none => rfl
  | some text =>
      dsimp only
      split
      · rfl
      · rename_i filled
        rcases load_cases text session with ⟨fault, _, refused⟩ | ⟨decoded, spec, found, encoded, _⟩
        · rw [refused]
          dsimp only
          split <;> rfl
        · exact absurd ⟨text, stored, filled, found, encoded⟩ (unloaded decoded spec)

theorem restoreSpec_ok_iff : session.restoreSpec.2 = .ok () ↔ ¬session.store.BreaksLoading := by
  rw [restoreSpec, Store.BreaksLoading]
  cases session.store.get? Store.specKey with
  | none => simp
  | some text =>
      dsimp only
      split
      · rename_i blank
        simp [blank]
      · rename_i filled
        simp only [Option.some.injEq, exists_eq_left', ne_eq, filled, not_false_eq_true, true_and,
          ← Graph.decode_breaks_iff, ← @Graph.encode_breaks_iff _ _ _ none, load]
        -- what is passed over is what has a message, in reading as in writing
        cases Graph.decode text with
        | error fault => cases message : fault.message? <;> simp [isPassedOver, message]
        | ok decoded =>
            cases encoded : decoded.graph.encode decoded.config none with
            | error cause => cases cause <;> simp [isPassedOver, encoded]
            | ok spec =>
                cases recorded : (configRecord decoded.config).isEncodable <;>
                  simp [encoded, keepConfig, Json.dump?, recorded, andThen, isPassedOver]

/-- What a session restores from a store: the stored graph with its naming fields, or none with those
that are stored apart from it. -/
inductive Brings (store : Store) (config : Spec.Config) (restored : Session) : Prop
  | saved {decoded : Decoded} {spec : Text} (loads : store.Loads decoded spec)
    (graph : restored.graph = decoded.graph) (fields : restored.config = decoded.config)
    (text : restored.spec = spec)
  | blank (unloaded : ∀ decoded spec, ¬store.Loads decoded spec) (graph : restored.graph = .empty)
    (text : restored.spec = "") (kept : restored.store = store)
    (fields : ∃ value taken, store.Holds Store.configKey (.object []) value ∧
      Spec.Config.Takes value config taken ∧
      restored.config = { taken with language := store.language?.getD taken.language })

/-- A session that has been restored. -/
structure IsRestored (store : Store) (config : Spec.Config) (restored : Session) : Prop where
  work : Brings store config restored
  skip : ∃ value, store.Holds Store.skipKey (.array []) value ∧ value.parts? = some restored.skip
  templates : ∃ value, store.Holds Store.templatesKey (.object []) value ∧
    Choices.ofJson value = .ok restored.templates

theorem restoreSettings_eq_ok_iff :
    session.restoreSettings = (reached, .ok ()) ↔
      ∃ (fields skips choices : Json) (config : Spec.Config) (skip : List Json) (templates : Choices),
        (session.store.Holds Store.configKey (.object []) fields ∧
          Spec.Config.Takes fields session.config config) ∧
        (session.store.Holds Store.skipKey (.array []) skips ∧ skips.parts? = some skip) ∧
        (session.store.Holds Store.templatesKey (.object []) choices ∧
          Choices.ofJson choices = .ok templates) ∧
        reached = { session with
          config := { config with language := session.store.language?.getD config.language },
          skip := skip, templates := templates } := by
  simp only [restoreSettings, andThen_eq_ok_iff, restoreConfig_eq_ok_iff, restoreSkip_eq_ok_iff,
    restoreTemplates_eq_ok_iff, restoreLanguage_eq]
  constructor
  · rintro ⟨_, ⟨_, ⟨fields, config, held, takes, rfl⟩, skips, skip, stored, parts, rfl⟩,
      choices, templates, kept, read, rfl⟩
    exact ⟨fields, skips, choices, config, skip, templates, ⟨held, takes⟩, ⟨stored, parts⟩,
      ⟨kept, read⟩, rfl⟩
  · rintro ⟨fields, skips, choices, config, skip, templates, ⟨held, takes⟩, ⟨stored, parts⟩,
      ⟨kept, read⟩, rfl⟩
    exact ⟨_, ⟨_, ⟨fields, config, held, takes, rfl⟩, skips, skip, stored, parts, rfl⟩,
      choices, templates, kept, read, rfl⟩

theorem exists_settled_iff :
    (∃ reached, (start store config).restoreSettings = (reached, .ok ()) ∧
      ¬reached.store.BreaksLoading) ↔ store.IsUsable := by
  constructor
  · rintro ⟨reached, settled, loads⟩
    obtain ⟨fields, skips, choices, taken, skip, templates, ⟨held, takes⟩, ⟨stored, parts⟩,
      ⟨kept, read⟩, rfl⟩ := restoreSettings_eq_ok_iff.mp settled
    refine ⟨⟨fields, held, (Spec.Config.exists_takes_iff _).mp ⟨taken, takes⟩⟩, ⟨skips, stored, ?_⟩,
      ⟨choices, kept, Choices.exists_ofJson_iff.mp ⟨templates, read⟩⟩, loads⟩
    rw [parts, Option.isSome_some]
  · rintro ⟨⟨fields, held, accepts⟩, ⟨skips, stored, some⟩, ⟨choices, kept, pairing⟩, loads⟩
    obtain ⟨taken, takes⟩ := (Spec.Config.exists_takes_iff config).mpr accepts
    obtain ⟨skip, parts⟩ := Option.isSome_iff_exists.mp some
    obtain ⟨templates, read⟩ := Choices.exists_ofJson_iff.mpr pairing
    exact ⟨_, restoreSettings_eq_ok_iff.mpr ⟨fields, skips, choices, taken, skip, templates,
      ⟨held, takes⟩, ⟨stored, parts⟩, ⟨kept, read⟩, rfl⟩, loads⟩

theorem exists_restored_iff :
    (∃ restored, (start store config).restore = (restored, .ok ())) ↔ store.IsUsable := by
  rw [← @exists_settled_iff store config]
  simp only [restore_eq, andThen_eq_ok_iff, ← restoreSpec_ok_iff]
  constructor
  · rintro ⟨restored, reached, settled, done⟩
    exact ⟨reached, settled, by rw [done]⟩
  · rintro ⟨reached, settled, done⟩
    exact ⟨reached.restoreSpec.1, reached, settled, Prod.ext rfl done⟩

theorem isRestored (done : (start store config).restore = (restored, .ok ())) :
    IsRestored store config restored := by
  rw [restore_eq, andThen_eq_ok_iff] at done
  obtain ⟨reached, settled, done⟩ := done
  obtain ⟨fields, skips, choices, taken, skip, templates, ⟨held, takes⟩, ⟨stored, parts⟩,
    ⟨kept, read⟩, rfl⟩ := restoreSettings_eq_ok_iff.mp settled
  -- the settings leave the store alone, so the last step still sees the one that was given
  by_cases saved : ∃ decoded spec, store.Loads decoded spec
  · obtain ⟨decoded, spec, loads⟩ := saved
    cases dumped : (configRecord decoded.config).dump? with
    | none =>
        have ended := restoreSpec_ok_iff.mp (congrArg Prod.snd done)
        exact absurd (loads.breaksLoading dumped) ended
    | some record =>
        rw [restoreSpec_of_loads loads dumped] at done
        obtain rfl := (Prod.mk.inj done).1
        exact ⟨.saved loads rfl rfl rfl, ⟨skips, stored, parts⟩, choices, kept, read⟩
  · simp only [not_exists] at saved
    obtain rfl := (congrArg Prod.fst done).symm.trans (restoreSpec_of_not_loads saved)
    exact ⟨.blank saved rfl rfl rfl ⟨fields, taken, held, takes, rfl⟩, ⟨skips, stored, parts⟩, choices,
      kept, read⟩

theorem blank_of_not_loads (unloaded : ∀ decoded spec, ¬store.Loads decoded spec) :
    (start store config).restore.1.graph = .empty ∧ (start store config).restore.1.spec = "" := by
  obtain ⟨reached, same, ⟨fault, _, stopped⟩ | led⟩ := restore_cases (start store config)
  · rw [stopped]
    exact ⟨same.graph, same.spec⟩
  · rw [led, restoreSpec_of_not_loads]
    · exact ⟨same.graph, same.spec⟩
    · rw [same.store]
      exact unloaded

end Starting

def damaged : Store :=
  .ofTable [(Store.specKey, "nodes: [oops"), (Store.configKey, "\x7bnot json"),
    (Store.languageKey, "latin"), (Store.skipKey, "[")]

section Usual

attribute [local instance] Host.usual

end Usual

end Session

end Workflow
