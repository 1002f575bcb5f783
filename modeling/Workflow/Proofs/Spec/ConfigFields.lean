import Workflow.Proofs.Check.Field
import Workflow.Spec.Config

/-! Which fields make a configuration: known ones alone, each of them a text, and that of the language a
known word. -/

namespace Workflow.Spec.Config

theorem language_eq_ok_iff {value : Json} {language : Language} :
    Check.oneOf Language.choices value = .ok language ↔ value = .text language.word := by
  cases value with
  | text word =>
      rw [Check.oneOf, Json.text.injEq]
      cases found : Language.choices.lookup word with
      | none =>
          refine iff_of_false (fun read => by cases read) ?_
          rintro rfl
          cases found.symm.trans (Language.ofWord?_word language)
      | some known =>
          have word := Language.word_of_ofWord? found
          constructor
          · intro read
            rw [← Except.ok.inj read, word]
          · rintro rfl
            exact congrArg Except.ok (Option.some.inj (found.symm.trans (Language.ofWord?_word language)))
  | _ => exact iff_of_false (fun read => by cases read) fun same => by cases same

/-- A field that is left out is the standard one, and any other is given by its text. -/
def FieldStands (fields : Table Json) (config : Config) (key : Text) : Prop :=
  fields.get? key = none ∧ config.entries.get? key = standard.entries.get? key ∨
    ∃ text, config.entries.get? key = some text ∧ fields.get? key = some (.text text)

theorem fieldStands_iff (fields : Table Json) (config : Config) (key : Text) {text default : Text}
    (held : config.entries.get? key = some text) (usual : standard.entries.get? key = some default) :
    FieldStands fields config key ↔
      fields.get? key = none ∧ text = default ∨ fields.get? key = some (.text text) := by
  simp only [FieldStands, held, usual, Option.some.injEq, exists_eq_left']

/-- Fields make a configuration if each of them stands for a part of it. -/
theorem ofFields_eq_ok_iff {fields : Table Json} {config : Config} :
    ofFields fields = .ok config ↔
      (∀ key ∈ keys, FieldStands fields config key) ∧ ∀ key ∈ fields.keys, key ∈ keys := by
  have text (value : Json) (content : Text) :
      Check.text value = .ok content ↔ value = .text content := Check.text_eq_ok_iff
  have language (value : Json) (language : Language) :
      Check.oneOf Language.choices value = .ok language ↔ value = .text language.word :=
    language_eq_ok_iff
  have spoken (first second : Language) : first.word = second.word ↔ first = second := by
    cases first <;> cases second <;> decide
  have stands := fieldStands_iff fields config
  rw [keys]
  simp only [List.forall_mem_cons]
  rw [stands "name" rfl rfl, stands "builder_name" rfl rfl, stands "compiled_name" rfl rfl,
    stands "config" rfl rfl, stands "state" rfl rfl, stands "input" rfl rfl, stands "output" rfl rfl,
    stands "implementation" rfl rfl, stands "language" rfl rfl, spoken, stands "prompts" rfl rfl,
    stands "pipeline" rfl rfl, stands "tools" rfl rfl]
  cases config
  -- The checks in a row come to the same conditions, one for each field.
  simp only [ofFields, Checked.also, Checked.arg_eq_ok_iff, Checked.map_eq_ok_iff,
    Check.withDefault_iff_of_form text, Check.withDefault_iff_of_form language,
    Check.noOthers_eq_ok_iff, Except.ok.injEq, exists_and_left, mk.injEq, ↓existsAndEq, true_and,
    exists_const, and_assoc, List.not_mem_nil, false_implies, implies_true, and_true, keys]

end Workflow.Spec.Config
