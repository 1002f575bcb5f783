import Mathlib.Data.List.Basic
import Mathlib.Data.List.Induction
import Mathlib.Data.Nat.Digits.Defs
import Workflow.Proofs.Graph.GenericLabel

/-! The number of a generic label is what its digits, each of any script, mean in base ten. Of many
labels the greatest number counts. -/

namespace Workflow

/-- What follows the mark of generic labels is digits, and maybe one newline; the first digit is the
highest place of the number. -/
inductive HasNumber : Text → Nat → Prop where
  | plain {digits : List Char} {values : List Nat} (filled : digits ≠ [])
    (read : digits.map Text.digitValue? = values.map some) :
    HasNumber ("conditional_edge_" ++ Text.ofChars digits) (Nat.ofDigits 10 values.reverse)
  | newline {digits : List Char} {values : List Nat} (filled : digits ≠ [])
    (read : digits.map Text.digitValue? = values.map some) :
    HasNumber ("conditional_edge_" ++ Text.ofChars (digits ++ ['\n']))
      (Nat.ofDigits 10 values.reverse)

namespace Text

theorem baseDigit?_plainDigit_eq {c : Char} {value : Nat} (found : digitValue? c = some value) :
    baseDigit? 10 (plainDigit c) = some value := by
  obtain ⟨start, _, least, greatest, same⟩ := digitValue?_eq_some found
  have plain : ∀ value, value < 10 → baseDigit? 10 (Char.ofNat (48 + value)) = some value := by
    decide +kernel
  have small : value < 10 := by omega
  rw [plainDigit, found]
  exact plain value small

theorem exists_values {digits : List Char} (all : ∀ c ∈ digits, isDecimalDigit c = true) :
    ∃ values : List Nat, digits.map digitValue? = values.map some := by
  induction digits with
  | nil => exact ⟨[], rfl⟩
  | cons c rest ih =>
      obtain ⟨value, found⟩ := Option.isSome_iff_exists.mp (all c List.mem_cons_self)
      obtain ⟨values, read⟩ := ih fun d member => all d (List.mem_cons_of_mem _ member)
      exact ⟨value :: values, by rw [List.map_cons, List.map_cons, found, read]⟩

theorem digits_of_values {digits : List Char} {values : List Nat}
    (read : digits.map digitValue? = values.map some) : ∀ c ∈ digits, isDecimalDigit c = true := by
  intro c member
  have inside := List.mem_map_of_mem (f := digitValue?) member
  rw [read] at inside
  obtain ⟨value, _, same⟩ := List.mem_map.mp inside
  rw [isDecimalDigit, ← same]
  rfl

theorem mapM_baseDigit? {digits : List Char} {values : List Nat}
    (read : digits.map digitValue? = values.map some) :
    (digits.map plainDigit).mapM (baseDigit? 10) = some values := by
  induction digits generalizing values with
  | nil =>
      cases values with
      | nil => rfl
      | cons value rest => exact absurd read (by simp)
  | cons c rest ih =>
      cases values with
      | nil => exact absurd read (by simp)
      | cons value others =>
          obtain ⟨here, further⟩ := List.cons.inj read
          rw [List.map_cons, List.mapM_cons, baseDigit?_plainDigit_eq here, ih further]
          rfl

end Text

namespace Numeral

theorem foldDigits_eq_ofDigits (base : Nat) (digits : List Nat) :
    foldDigits base digits = Nat.ofDigits base digits.reverse := by
  induction digits using List.reverseRecOn with
  | nil => rfl
  | append_singleton rest last ih =>
      rw [List.reverse_append, List.reverse_singleton, List.singleton_append, Nat.ofDigits_cons, ← ih,
        foldDigits, List.foldl_append, ← foldDigits, List.foldl_cons, List.foldl_nil, Nat.mul_comm,
        Nat.add_comm]

theorem integer?_of_digits {digits : List Char} {values : List Nat} {number : Int}
    (read : digits.map Text.digitValue? = values.map some)
    (found : integer? 10 digits = some number) :
    number = (Nat.ofDigits 10 values.reverse : Nat) := by
  have all := Text.digits_of_values read
  have trimmed : normal digits = digits.map Text.plainDigit := by
    rw [normal, Text.trimWhere_of_none fun c member => Text.not_blank_of_digit (all c member)]
  simp only [integer?, trimmed, sign_of_digits all, dropMark_ten, Text.mapM_baseDigit? read,
    Bool.false_eq_true, ↓reduceIte] at found
  split at found
  · exact absurd found (by simp)
  · rw [← Option.some.inj found, foldDigits_eq_ofDigits]

end Numeral

namespace Spec.Document

theorem genericDigits?_eq_some_iff {label : Text} {digits : List Char} :
    genericDigits? label = some digits ↔
      digits ≠ [] ∧ (∀ c ∈ digits, Text.isDecimalDigit c = true) ∧
        (label = "conditional_edge_" ++ Text.ofChars digits ∨
          label = "conditional_edge_" ++ Text.ofChars (digits ++ ['\n'])) := by
  have spelled {rest : List Char} (unmarked : '\ufffd' ∉ rest) :
      label = "conditional_edge_" ++ Text.ofChars rest ↔
        label.chars = "conditional_edge_".toList ++ rest := by
    rw [← Text.eq_ofChars_iff (by simpa using unmarked), Text.ofChars_append]
    rfl
  have unmarked {rest : List Char} (all : ∀ c ∈ rest, Text.isDecimalDigit c = true) :
      '\ufffd' ∉ rest ++ ['\n'] := by
    intro member
    rcases List.mem_append.mp member with digit | newline
    · exact absurd (all _ digit) (by decide +kernel)
    · exact absurd newline (by decide)
  constructor
  · intro found
    obtain ⟨filled, all⟩ := digits_of_generic found
    refine ⟨filled, all, ?_⟩
    rw [spelled fun member => unmarked all (List.mem_append_left _ member), spelled (unmarked all)]
    simp only [genericDigits?] at found
    split at found
    · rename_i marked
      obtain ⟨rest, same⟩ := List.isPrefixOf_iff_prefix.mp marked
      rw [← same, List.drop_left] at found
      rw [← same]
      cases last : rest.getLast? == some '\n' with
      | true =>
          have ended := List.dropLast_append_getLast? '\n' (beq_iff_eq.mp last)
          simp only [last, ↓reduceIte] at found
          split at found
          · exact absurd found (by simp)
          · rw [← Option.some.inj found, ended]
            exact .inr rfl
      | false =>
          simp only [last, Bool.false_eq_true, ↓reduceIte] at found
          split at found
          · exact absurd found (by simp)
          · exact .inl (congrArg _ (Option.some.inj found))
    · exact absurd found (by simp)
  · rintro ⟨filled, all, same⟩
    rw [spelled fun member => unmarked all (List.mem_append_left _ member), spelled (unmarked all)]
      at same
    have shaped : (digits.isEmpty || !digits.all Text.isDecimalDigit) = false := by
      rw [List.isEmpty_eq_false_iff.mpr filled, List.all_eq_true.mpr all]
      rfl
    have marked (rest : List Char) :
        "conditional_edge_".toList.isPrefixOf ("conditional_edge_".toList ++ rest) = true :=
      List.isPrefixOf_iff_prefix.mpr (List.prefix_append _ _)
    rcases same with plain | ended
    · have last : (digits.getLast? == some '\n') = false := by
        rw [beq_eq_false_iff_ne]
        intro same
        exact absurd (all '\n' (List.mem_of_getLast? same)) (by decide)
      simp only [genericDigits?, plain, marked, List.drop_left, last, shaped, Bool.false_eq_true,
        ↓reduceIte]
    · simp only [genericDigits?, ended, marked, List.drop_left, List.getLast?_concat,
        beq_self_eq_true, List.dropLast_concat, shaped, Bool.false_eq_true, ↓reduceIte]

theorem hasNumber_iff {label : Text} {number : Nat} :
    HasNumber label number ↔ ∃ digits, ∃ values : List Nat, genericDigits? label = some digits ∧
      digits.map Text.digitValue? = values.map some ∧ number = Nat.ofDigits 10 values.reverse := by
  constructor
  · intro has
    cases has with
    | @plain digits values filled read =>
        exact ⟨digits, values, genericDigits?_eq_some_iff.mpr
          ⟨filled, Text.digits_of_values read, .inl rfl⟩, read, rfl⟩
    | @newline digits values filled read =>
        exact ⟨digits, values, genericDigits?_eq_some_iff.mpr
          ⟨filled, Text.digits_of_values read, .inr rfl⟩, read, rfl⟩
  · rintro ⟨digits, values, found, read, rfl⟩
    obtain ⟨filled, _, rfl | rfl⟩ := genericDigits?_eq_some_iff.mp found
    · exact .plain filled read
    · exact .newline filled read

/-- Reading the number of a label finds the only one that it has, or none where it has none. -/
theorem genericNumber_cases {label : Text} {found : Option Int}
    (read : genericNumber label = .ok found) :
    (found = none ∧ ∀ number, ¬ HasNumber label number) ∨
      ∃ number : Nat, found = some (number : Int) ∧ ∀ other, HasNumber label other ↔ other = number := by
  simp only [hasNumber_iff]
  rw [genericNumber] at read
  cases own : genericDigits? label with
  | none =>
      rw [own] at read
      refine .inl ⟨(Except.ok.inj read).symm, ?_⟩
      rintro number ⟨digits, values, impossible, _⟩
      exact absurd impossible (by simp)
  | some digits =>
      rw [own] at read
      dsimp only at read
      cases whole : Numeral.integer? 10 digits with
      | none =>
          rw [whole] at read
          exact absurd read (by simp)
      | some value =>
          rw [whole] at read
          obtain ⟨values, shown⟩ := Text.exists_values (digits_of_generic own).2
          have number := Numeral.integer?_of_digits shown whole
          refine .inr ⟨_, (Except.ok.inj read).symm.trans (congrArg some number), ?_⟩
          intro other
          constructor
          · rintro ⟨others, places, same, further, rfl⟩
            rw [← Option.some.inj same, shown] at further
            rw [List.map_injective_iff.mpr (Option.some_injective Nat) further]
          · rintro rfl
            exact ⟨digits, values, rfl, shown, rfl⟩

theorem greatestGeneric_attained {labels : List Text} {greatest : Int}
    (read : greatestGeneric labels = .ok greatest) :
    (∀ label ∈ labels, ∀ number : Nat, HasNumber label number → (number : Int) ≤ greatest) ∧
      ((∃ label ∈ labels, ∃ number : Nat, HasNumber label number ∧ greatest = number) ∨
        greatest = 0 ∧ ∀ label ∈ labels, ∀ number, ¬ HasNumber label number) := by
  induction labels generalizing greatest with
  | nil =>
      obtain rfl := Except.ok.inj read
      exact ⟨fun label member => absurd member List.not_mem_nil,
        .inr ⟨rfl, fun label member => absurd member List.not_mem_nil⟩⟩
  | cons label rest ih =>
      rw [greatestGeneric] at read
      cases here : genericNumber label with
      | error fault => simp [here] at read
      | ok own =>
          cases further : greatestGeneric rest with
          | error fault => simp [here, further, Except.map] at read
          | ok others =>
              simp only [here, further, Except.map, Except.ok.injEq] at read
              obtain ⟨bound, attained⟩ := ih further
              have least := (le_greatestGeneric further).1
              have later (found : ∃ label ∈ rest, ∃ number : Nat, HasNumber label number ∧ others = number) :
                  ∃ other ∈ label :: rest, ∃ number : Nat, HasNumber other number ∧ others = number := by
                obtain ⟨other, member, held⟩ := found
                exact ⟨other, List.mem_cons_of_mem _ member, held⟩
              rw [List.forall_mem_cons]
              rcases genericNumber_cases here with ⟨rfl, absent⟩ | ⟨number, rfl, only⟩
              · have same : greatest = others := by
                  rw [← read, Option.getD_none]
                  exact max_eq_right least
                subst same
                refine ⟨⟨fun number held => absurd held (absent number), bound⟩, ?_⟩
                rcases attained with found | ⟨zero, free⟩
                · exact .inl (later found)
                · exact .inr ⟨zero, List.forall_mem_cons.mpr ⟨absent, free⟩⟩
              · rw [Option.getD_some] at read
                refine ⟨⟨fun other held => ?_, fun other member second held => ?_⟩, .inl ?_⟩
                · rw [(only other).mp held]
                  omega
                · have below := bound other member second held
                  omega
                · by_cases above : others ≤ number
                  · refine ⟨label, List.mem_cons_self, number, (only number).mpr rfl, ?_⟩
                    omega
                  · have same : greatest = others := by omega
                    rcases attained with found | ⟨zero, _⟩
                    · rw [same]
                      exact later found
                    · omega

end Spec.Document

end Workflow
