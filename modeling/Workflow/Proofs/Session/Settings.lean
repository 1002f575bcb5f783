import Workflow.Proofs.Session.Restoring
import Workflow.Proofs.Spec.ConfigFields
import Workflow.Proofs.Spec.Grammar

/-! Stored settings. Each of them either comes to a value that the session takes over, or stops the
restoring of the session; a text that is no data counts as none. -/

namespace Workflow

namespace Json

def filled? (key : Text) (value : Json) : Option Json := (value.get? key).filter isFilled

theorem object_ne_of_wordValue? {source rest : List Char} {result : Json}
    (found : wordValue? source = some (result, rest)) (fields : Table Json) :
    result ≠ .object fields := by
  obtain ⟨⟨word, value⟩, member, here⟩ := List.exists_of_findSome?_eq_some found
  obtain ⟨after, _, same⟩ := Option.map_eq_some_iff.mp here
  obtain ⟨rfl, _⟩ := Prod.mk.inj same
  rintro rfl
  simp [words] at member

theorem object_ne_of_number {negative : Bool} {source rest : List Char} {result : Json}
    (found : number negative source = .ok (result, rest)) (fields : Table Json) :
    result ≠ .object fields := by
  rintro rfl
  unfold number at found
  dsimp only at found
  repeat' split at found
  all_goals cases found

theorem object_ne_of_scalar {source rest : List Char} {result : Json}
    (found : scalar source = .ok (result, rest)) (fields : Table Json) :
    result ≠ .object fields := by
  unfold scalar at found
  split at found
  · rename_i pair word
    obtain rfl := Except.ok.inj found
    exact object_ne_of_wordValue? word fields
  · split at found <;> exact object_ne_of_number found fields

theorem nodup_of_value {room fuel : Nat} {source rest : List Letter} {fields : Table Json}
    (read : value room fuel source = .ok (.object fields, rest)) : fields.keys.Nodup := by
  cases fuel with
  | zero => cases read
  | succ fuel =>
      rw [value.eq_def] at read
      dsimp only at read
      split at read
      · obtain ⟨body, _, same⟩ := Yaml.except_map_eq_ok read
        cases same
      · split at read
        · cases read
        · cases read
        · obtain ⟨items, _, same⟩ := Yaml.except_map_eq_ok read
          cases same
      · split at read
        · cases read
        · cases read
          exact List.nodup_nil
        · obtain ⟨members, _, same⟩ := Yaml.except_map_eq_ok read
          cases same
          exact Table.nodup_ofEntries members.1
      · obtain ⟨⟨result, left⟩, found, same⟩ := Yaml.except_map_eq_ok read
        exact absurd (Prod.mk.inj same).1 (object_ne_of_scalar found fields)

theorem nodup_of_read [Host] {text : Text} {fields : Table Json}
    (read : Json.read text = .ok (.object fields)) : fields.keys.Nodup := by
  rw [Json.read] at read
  split at read
  · cases read
  · rename_i result rest found
    split at read
    · obtain rfl := Except.ok.inj read
      exact nodup_of_value found
    · cases read

end Json

namespace Spec.Config

variable {value : Json} {before after : Config} {key text : Text} {fields : Table Json}

/-- Known fields that are filled replace those of a configuration by their texts. -/
def Takes (value : Json) (before after : Config) : Prop :=
  ∀ key ∈ keys,
    value.filled? key = none ∧ after.entries.get? key = before.entries.get? key ∨
      ∃ text, value.filled? key = some (.text text) ∧ after.entries.get? key = some text

/-- All known fields that are filled are texts, and that of the language is a known word. -/
def Accepts (value : Json) : Prop :=
  ∀ key ∈ keys, ∀ given, value.filled? key = some given →
    ∃ text, given = .text text ∧ ¬IsForeign key text

theorem exists_entry (config : Config) (member : key ∈ keys) :
    ∃ text, config.entries.get? key = some text := by
  cases found : config.entries.get? key with
  | some text => exact ⟨text, rfl⟩
  | none =>
      rw [Table.get?_eq_none_iff, keys_entries] at found
      exact absurd member found

theorem not_isForeign_entry (held : after.entries.get? key = some text) : ¬IsForeign key text := by
  rintro ⟨rfl, unknown⟩
  have word : after.entries.get? "language" = some after.language.word := rfl
  rw [← Option.some.inj (word.symm.trans held), Language.ofWord?_word] at unknown
  cases unknown

theorem exists_takes_iff (before : Config) : (∃ after, Takes value before after) ↔ Accepts value := by
  constructor
  · rintro ⟨after, takes⟩ key member given filled
    rcases takes key member with ⟨none, _⟩ | ⟨text, some, held⟩
    · cases none.symm.trans filled
    · exact ⟨text, Option.some.inj (filled.symm.trans some), not_isForeign_entry held⟩
  · intro accepts
    let chosen (key : Text) : Text :=
      (((value.filled? key).bind Json.text?).or (before.entries.get? key)).getD ""
    refine ⟨ofEntries (keys.map fun key => (key, chosen key)), fun key member => ?_⟩
    have stored := Table.get?_map_of_mem member chosen
    obtain ⟨_, _, _, present⟩ := get?_ofEntries (keys.map fun key => (key, chosen key)) member
    obtain ⟨old, held⟩ := exists_entry before member
    cases filled : value.filled? key with
    | none =>
        have same : chosen key = old := by simp [chosen, filled, held]
        have kept := (present _ stored).2 (same ▸ not_isForeign_entry held)
        exact .inl ⟨rfl, by rw [kept, same, held]⟩
    | some given =>
        obtain ⟨text, rfl, known⟩ := accepts key member given filled
        have same : chosen key = text := by simp [chosen, filled, Json.text?]
        have taken := (present _ stored).2 (same ▸ known)
        exact .inr ⟨text, rfl, by rw [taken, same]⟩

theorem ofFields_merged_eq_ok_iff (distinct : fields.keys.Nodup) :
    ofFields (Session.mergedFields before
        (fields.filter fun (key, value) => keys.contains key && value.isFilled)) = .ok after ↔
      Takes (.object fields) before after := by
  have known := distinct.sublist ((List.filter_sublist
    (p := fun (key, value) => keys.contains key && Json.isFilled value)).map Prod.fst)
  have others : ∀ key ∈ (Session.mergedFields before
      (fields.filter fun (key, value) => keys.contains key && value.isFilled)).keys, key ∈ keys := by
    intro key member
    rcases Table.mem_keys_foldl_put member with new | old
    · obtain ⟨⟨_, value⟩, inside, rfl⟩ := List.mem_map.mp new
      have passed := (List.mem_filter.mp inside).2
      rw [Bool.and_eq_true] at passed
      simpa using passed.1
    · rw [Table.keys, List.map_map] at old
      exact old
  rw [ofFields_eq_ok_iff, and_iff_left others, Takes]
  refine forall₂_congr fun key member => ?_
  obtain ⟨old, held⟩ := exists_entry before member
  -- a field comes from the object where it is filled there, and from before otherwise
  have merged : (Session.mergedFields before
      (fields.filter fun (key, value) => keys.contains key && value.isFilled)).get? key =
        (Json.filled? key (.object fields)).or (some (.text old)) := by
    rw [Session.mergedFields, Table.get?_foldl_put known, Table.get?_map_snd, held,
      Table.get?_filter distinct, Json.filled?, Json.get?]
    simp [member]
  rw [FieldStands, merged, held]
  cases Json.filled? key (.object fields) with
  | none => simp
  | some given => simp [and_comm]

theorem takes_of_bare (bare : ∀ fields, value ≠ .object fields) :
    Takes value before after ↔ after = before := by
  have unfilled (key : Text) : value.filled? key = none := by
    cases value with
    | object fields => exact absurd rfl (bare fields)
    | _ => rfl
  constructor
  · intro takes
    refine eq_of_fields fun key member => ?_
    rcases takes key member with ⟨_, same⟩ | ⟨text, filled, _⟩
    · exact same
    · cases (unfilled key).symm.trans filled
  · rintro rfl
    exact fun key member => .inl ⟨unfilled key, rfl⟩

end Spec.Config

/-- What a stored text stands for; one that is missing or no data stands for the given value. -/
inductive Store.Holds [Host] (store : Store) (key : Text) (default : Json) : Json → Prop where
  | missing (absent : store.get? key = none) : store.Holds key default default
  | unreadable {text : Text} (stored : store.get? key = some text)
    (malformed : Json.read text = .error .malformed) : store.Holds key default default
  | data {text : Text} {value : Json} (stored : store.get? key = some text)
    (read : Json.read text = .ok value) : store.Holds key default value

namespace Session

variable {session reached : Session} {key : Text} {default value : Json}

variable [Host]

theorem readStored_eq_ok_iff :
    session.readStored key default = .ok value ↔ session.store.Holds key default value := by
  have blank : Json.read "" = .error .malformed := rfl
  constructor
  · intro read
    unfold readStored at read
    split at read
    · rename_i absent
      obtain rfl := Except.ok.inj read
      exact .missing absent
    · rename_i text stored
      split at read
      · rename_i empty
        obtain rfl := Except.ok.inj read
        exact .unreadable stored (empty ▸ blank)
      · split at read
        · rename_i found
          obtain rfl := Except.ok.inj read
          exact .data stored found
        · rename_i malformed
          obtain rfl := Except.ok.inj read
          exact .unreadable stored malformed
        · cases read
        · cases read
  · intro holds
    unfold readStored
    cases holds with
    | missing absent => rw [absent]
    | @unreadable text stored malformed =>
        simp only [stored, malformed, ite_self]
    | @data text value stored read =>
        have filled : text ≠ "" := by
          rintro rfl
          cases blank.symm.trans read
        rw [stored]
        simp only [filled, ↓reduceIte, read]

theorem nodup_of_holds {fields : Table Json} (holds : session.store.Holds key (.object []) (.object fields)) :
    fields.keys.Nodup := by
  cases holds with
  | missing absent => exact List.nodup_nil
  | unreadable stored malformed => exact List.nodup_nil
  | data stored read => exact Json.nodup_of_read read

theorem restoreConfig_of_readStored
    (stored : session.readStored Store.configKey (.object []) = .ok value) :
    session.restoreConfig = (reached, .ok ()) ↔ ∃ config,
      Spec.Config.Takes value session.config config ∧ reached = { session with config := config } := by
  -- not by its equation, which would try to evaluate the check of the fields
  delta restoreConfig
  rw [stored]
  cases value with
  | object fields =>
      have taken {config : Spec.Config} := @Spec.Config.ofFields_merged_eq_ok_iff session.config config
        fields (nodup_of_holds (readStored_eq_ok_iff.mp stored))
      dsimp only
      simp only [← taken]
      cases Spec.Config.ofFields (mergedFields session.config
          (fields.filter fun (key, value) => Spec.Config.keys.contains key && value.isFilled)) with
      | error issues => simp
      | ok config => simp [eq_comm]
  | _ =>
      simp only [ne_eq, reduceCtorEq, not_false_eq_true, implies_true, Spec.Config.takes_of_bare,
        exists_eq_left, Prod.mk.injEq, and_true]
      exact eq_comm

theorem restoreConfig_eq_ok_iff :
    session.restoreConfig = (reached, .ok ()) ↔ ∃ value config,
      session.store.Holds Store.configKey (.object []) value ∧
        Spec.Config.Takes value session.config config ∧ reached = { session with config := config } := by
  simp only [← readStored_eq_ok_iff]
  cases stored : session.readStored Store.configKey (.object []) with
  | error fault =>
      delta restoreConfig
      simp [stored]
  | ok value => simp [restoreConfig_of_readStored stored]

theorem restoreSkip_eq_ok_iff :
    session.restoreSkip = (reached, .ok ()) ↔ ∃ value skip,
      session.store.Holds Store.skipKey (.array []) value ∧ value.parts? = some skip ∧
        reached = { session with skip := skip } := by
  simp only [← readStored_eq_ok_iff]
  rw [restoreSkip]
  cases session.readStored Store.skipKey (.array []) with
  | error fault => simp
  | ok value =>
      cases parts : value.parts? with
      | none => simp [parts]
      | some skip => simp [parts, eq_comm]

theorem restoreTemplates_eq_ok_iff :
    session.restoreTemplates = (reached, .ok ()) ↔ ∃ value templates,
      session.store.Holds Store.templatesKey (.object []) value ∧
        Choices.ofJson value = .ok templates ∧
        reached = { session with templates := templates } := by
  simp only [← readStored_eq_ok_iff]
  rw [restoreTemplates]
  cases session.readStored Store.templatesKey (.object []) with
  | error fault => simp
  | ok value =>
      cases read : Choices.ofJson value with
      | error fault => simp [read]
      | ok templates => simp [read, eq_comm]

end Session

end Workflow
