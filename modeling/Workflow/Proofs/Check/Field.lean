import Mathlib.Data.List.Forall2
import Workflow.Check.Field

/-! Which values pass the checks of single values, and what they are read as. -/

namespace Workflow

namespace Checked

variable {α β : Type}

theorem under_eq_ok_iff {segment : Text} {found : Checked α} {value : α} :
    under segment found = .ok value ↔ found = .ok value := by
  cases found <;> simp [under]

theorem map_eq_ok_iff {f : α → β} {found : Checked α} {result : β} :
    found.map f = .ok result ↔ ∃ value, found = .ok value ∧ f value = result := by
  cases found <;> simp [Except.map]

theorem cons_eq_ok_iff {first : Checked α} {rest : Checked (List α)} {results : List α} :
    cons first rest = .ok results ↔
      ∃ value others, first = .ok value ∧ rest = .ok others ∧ value :: others = results := by
  cases first <;> cases rest <;> simp [cons, arg, Except.map]

theorem itemsFrom_eq_ok_iff {check : α → Checked β} {index : Nat} {list : List α}
    {results : List β} : itemsFrom check index list = .ok results ↔
      List.Forall₂ (fun item result => check item = .ok result) list results := by
  induction list generalizing index results with
  | nil => cases results <;> simp [itemsFrom]
  | cons item rest ih =>
      rw [itemsFrom, cons_eq_ok_iff]
      constructor
      · rintro ⟨result, others, first, later, rfl⟩
        exact .cons (under_eq_ok_iff.mp first) (ih.mp later)
      · intro each
        cases each with
        | cons here later => exact ⟨_, _, under_eq_ok_iff.mpr here, ih.mpr later, rfl⟩

theorem mapM_eq_ok_iff {check : α → Checked β} {list : List α} {results : List β} :
    list.mapM check = .ok results ↔
      List.Forall₂ (fun item result => check item = .ok result) list results := by
  induction list generalizing results with
  | nil => cases results <;> simp [pure, Except.pure]
  | cons item rest ih =>
      rw [List.mapM_cons]
      cases here : check item with
      | error issues =>
          refine iff_of_false (fun read => by cases read) fun each => ?_
          cases each with
          | cons first _ => cases here.symm.trans first
      | ok result =>
          cases later : rest.mapM check with
          | error issues =>
              refine iff_of_false (fun read => by cases read) fun each => ?_
              cases each with
              | cons _ others => cases later.symm.trans (ih.mpr others)
          | ok others =>
              constructor
              · intro read
                obtain rfl := Except.ok.inj read
                exact .cons here (ih.mp later)
              · intro each
                cases each with
                | cons first more =>
                    obtain rfl := Except.ok.inj (here.symm.trans first)
                    obtain rfl := Except.ok.inj (later.symm.trans (ih.mpr more))
                    rfl

end Checked

namespace Check

variable {α : Type} {value : Json} {fields : Table Json} {key : Text}

theorem text_eq_ok_iff {content : Text} : text value = .ok content ↔ value = .text content := by
  cases value <;> simp [text, Checked.problem]

theorem optional_eq_ok_iff {check : Json → Checked α} {found : Option α} :
    optional check value = .ok found ↔
      value = .null ∧ found = none ∨
        value ≠ .null ∧ ∃ content, check value = .ok content ∧ found = some content := by
  cases value with
  | null => simp [optional, eq_comm]
  | _ => simp [optional, Checked.map_eq_ok_iff, @eq_comm _ (some _)]

theorem optional_text_eq_ok_iff {found : Option Text} :
    optional text value = .ok found ↔
      value = .null ∧ found = none ∨ ∃ content, value = .text content ∧ found = some content := by
  rw [optional_eq_ok_iff]
  simp only [text_eq_ok_iff]
  refine or_congr_right ⟨fun held => held.2, ?_⟩
  rintro ⟨content, rfl, rfl⟩
  exact ⟨by simp, content, rfl, rfl⟩

theorem textTable_eq_ok_iff {table : Table Text} :
    textTable value = .ok table ↔ value = Json.textTable table := by
  cases value with
  | object fields =>
      simp only [textTable, Json.textTable, Json.object.injEq]
      induction fields generalizing table with
      | nil => cases table <;> simp
      | cons field rest ih =>
          obtain ⟨key, value⟩ := field
          rw [List.foldr_cons, Checked.cons_eq_ok_iff]
          constructor
          · rintro ⟨entry, others, first, later, rfl⟩
            obtain ⟨content, read, rfl⟩ := Checked.map_eq_ok_iff.mp first
            obtain rfl := text_eq_ok_iff.mp (Checked.under_eq_ok_iff.mp read)
            rw [ih.mp later]
            rfl
          · intro same
            cases table with
            | nil => cases same
            | cons entry others =>
                obtain ⟨⟨rfl, rfl⟩, rfl⟩ := List.cons.inj same |>.imp_left Prod.mk.inj
                exact ⟨entry, others, rfl, ih.mpr rfl, rfl⟩
  | _ => simp [textTable, Json.textTable, Checked.problem]

theorem fields_eq_ok_iff {otherwise : Problem} :
    Check.fields otherwise value = .ok fields ↔ value = .object fields := by
  cases value <;> simp [Check.fields, Checked.problem]

theorem withDefault_eq_ok_iff {check : Json → Checked α} {default result : α} :
    withDefault key default check fields = .ok result ↔
      fields.get? key = none ∧ result = default ∨
        ∃ value, fields.get? key = some value ∧ check value = .ok result := by
  rw [withDefault]
  cases fields.get? key <;> simp [Checked.under_eq_ok_iff, @eq_comm _ default result]

theorem noOthers_eq_ok_iff {known : List Text} {fields : Table Json} {done : Unit} :
    noOthers known fields = .ok done ↔ ∀ key ∈ fields.keys, key ∈ known := by
  rw [noOthers]
  split
  · rename_i none
    rw [List.filter_eq_nil_iff] at none
    refine iff_of_true rfl fun key member => ?_
    obtain ⟨field, inside, rfl⟩ := List.mem_map.mp member
    simpa using none field inside
  · rename_i others
    refine iff_of_false (fun read => by cases read) fun all => others ?_
    rw [List.filter_eq_nil_iff]
    intro field inside
    simpa using all field.1 (List.mem_map.mpr ⟨field, inside, rfl⟩)

section

variable {check : Json → Checked α} {dump : α → Json} {result : α}
  (exact_form : ∀ value result, check value = .ok result ↔ value = dump result)

include exact_form

theorem required_iff_of_form :
    required key check fields = .ok result ↔ fields.get? key = some (dump result) := by
  rw [required]
  cases fields.get? key <;> simp [Checked.under_eq_ok_iff, Checked.problem, exact_form]

theorem withDefault_iff_of_form {default : α} :
    withDefault key default check fields = .ok result ↔
      fields.get? key = none ∧ result = default ∨ fields.get? key = some (dump result) := by
  simp only [withDefault_eq_ok_iff, exact_form, exists_eq_right]

end

end Check

end Workflow
