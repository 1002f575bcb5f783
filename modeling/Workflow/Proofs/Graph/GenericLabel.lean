import Workflow.Graph.Rebuild
import Workflow.Proofs.Graph.Identifier

/-! Numbers of generic labels: digits of any script are a number, unless there are too many, and a
label that came from the counter is read back as its number. -/

namespace Workflow

namespace Text

theorem digitValue?_eq_some {c : Char} {value : Nat} (found : digitValue? c = some value) :
    ∃ start ∈ zeroDigits, start ≤ c.toNat ∧ c.toNat < start + 10 ∧ value = c.toNat - start := by
  obtain ⟨start, member, here⟩ := List.exists_of_findSome?_eq_some found
  split at here
  · rename_i bounds
    exact ⟨start, member, bounds.1, bounds.2, (Option.some.inj here).symm⟩
  · exact absurd here (by simp)

theorem not_blank_of_digit {c : Char} (digit : isDecimalDigit c = true) : isNarrowBlank c = false := by
  obtain ⟨value, found⟩ := Option.isSome_iff_exists.mp digit
  obtain ⟨start, member, least, greatest, _⟩ := digitValue?_eq_some found
  have apart : ∀ start ∈ zeroDigits, ∀ range ∈ blankRanges,
      start + 10 ≤ range.1 ∨ range.2 < start := by decide +kernel
  have notBlank : isBlank c = false := by
    apply List.any_eq_false.mpr
    intro range inside
    have sides := apart start member range inside
    simp only [Bool.and_eq_true, decide_eq_true_eq, not_and]
    omega
  rw [isNarrowBlank, notBlank, Bool.false_and]

theorem plainDigit_of_digit {c : Char} (digit : isDecimalDigit c = true) :
    ∃ value, value < 10 ∧ plainDigit c = Char.ofNat (48 + value) := by
  obtain ⟨value, found⟩ := Option.isSome_iff_exists.mp digit
  obtain ⟨start, _, least, greatest, rfl⟩ := digitValue?_eq_some found
  refine ⟨c.toNat - start, by omega, ?_⟩
  rw [plainDigit, found]

theorem baseDigit?_plainDigit {c : Char} (digit : isDecimalDigit c = true) :
    (baseDigit? 10 (plainDigit c)).isSome = true := by
  obtain ⟨value, small, same⟩ := plainDigit_of_digit digit
  have plain : ∀ value, value < 10 → (baseDigit? 10 (Char.ofNat (48 + value))).isSome = true := by
    decide +kernel
  rw [same]
  exact plain value small

theorem plainDigit_ne_sign {c : Char} (digit : isDecimalDigit c = true) :
    plainDigit c ≠ '-' ∧ plainDigit c ≠ '+' := by
  obtain ⟨value, small, same⟩ := plainDigit_of_digit digit
  have plain : ∀ value, value < 10 → Char.ofNat (48 + value) ≠ '-' ∧ Char.ofNat (48 + value) ≠ '+' := by
    decide +kernel
  rw [same]
  exact plain value small

theorem dropWhile_of_none {p : Char → Bool} {text : List Char} (none : ∀ c ∈ text, p c = false) :
    text.dropWhile p = text := by
  cases text with
  | nil => rfl
  | cons c rest =>
      exact List.dropWhile_cons_of_neg (by rw [none c List.mem_cons_self]; exact Bool.false_ne_true)

theorem trimWhere_of_none {p : Char → Bool} {text : List Char} (none : ∀ c ∈ text, p c = false) :
    trimWhere p text = text := by
  rw [trimWhere, dropWhile_of_none none, dropWhile_of_none, List.reverse_reverse]
  intro c member
  exact none c (List.mem_reverse.mp member)

theorem digitValue?_of_isDigit {c : Char} (digit : c.isDigit = true) :
    digitValue? c = some (c.toNat - 48) := by
  have bounds : 48 ≤ c.toNat ∧ c.toNat ≤ 57 := by
    simpa [Char.isDigit, UInt32.le_iff_toNat_le] using digit
  rw [digitValue?, zeroDigits, List.findSome?_cons, if_pos (by omega)]

theorem plainDigit_of_isDigit {c : Char} (digit : c.isDigit = true) : plainDigit c = c := by
  have bounds : 48 ≤ c.toNat ∧ c.toNat ≤ 57 := by
    simpa [Char.isDigit, UInt32.le_iff_toNat_le] using digit
  have same : 48 + (c.toNat - 48) = c.toNat := by omega
  rw [plainDigit, digitValue?_of_isDigit digit]
  simp only [same, Char.ofNat_toNat]

theorem baseDigit?_of_isDigit {c : Char} (digit : c.isDigit = true) :
    baseDigit? 10 c = some (c.toNat - 48) := by
  have bounds : 48 ≤ c.toNat ∧ c.toNat ≤ 57 := by
    simpa [Char.isDigit, UInt32.le_iff_toNat_le] using digit
  have small : c.toNat - 48 < 10 := by omega
  simp [baseDigit?, digitValue?_of_isDigit digit, Option.filter_some, small]

theorem isDigit_of_repr {n : Nat} {c : Char} (member : c ∈ n.repr.toList) : c.isDigit = true := by
  rw [Nat.toList_repr] at member
  exact Nat.isDigit_of_mem_toDigits (by decide) (by decide) member

end Text

namespace Numeral

theorem mapM_isSome {α β : Type} {f : α → Option β} {items : List α}
    (all : ∀ item ∈ items, (f item).isSome = true) :
    ∃ found, items.mapM f = some found ∧ found.length = items.length := by
  induction items with
  | nil => exact ⟨[], rfl, rfl⟩
  | cons item rest ih =>
      obtain ⟨first, here⟩ := Option.isSome_iff_exists.mp (all item List.mem_cons_self)
      obtain ⟨found, read, length⟩ := ih fun other member => all other (List.mem_cons_of_mem _ member)
      refine ⟨first :: found, ?_, by rw [List.length_cons, List.length_cons, length]⟩
      rw [List.mapM_cons, here, read]
      rfl

theorem dropMark_ten (text : List Char) : dropMark 10 text = text := by
  unfold dropMark
  split
  · rename_i mark rest
    have none : some mark.toLower ≠ baseMark 10 := by
      rw [show baseMark 10 = none by decide]
      exact Option.some_ne_none _
    rw [if_neg none]
  · rfl

theorem sign_of_digits {text : List Char} (digits : ∀ c ∈ text, Text.isDecimalDigit c = true) :
    sign (text.map Text.plainDigit) = (false, text.map Text.plainDigit) := by
  cases text with
  | nil => rfl
  | cons c rest =>
      obtain ⟨notMinus, notPlus⟩ := Text.plainDigit_ne_sign (digits c List.mem_cons_self)
      rw [List.map_cons]
      unfold sign
      split
      · rename_i same
        exact absurd (List.cons.inj same).1 notMinus
      · rename_i same
        exact absurd (List.cons.inj same).1 notPlus
      · rfl

/-- A numeral of digits alone is a number just if it is not too long. -/
theorem integer?_isSome_iff {text : List Char} (filled : text ≠ [])
    (digits : ∀ c ∈ text, Text.isDecimalDigit c = true) :
    (integer? 10 text).isSome = true ↔ text.length ≤ digitLimit := by
  have trimmed : normal text = text.map Text.plainDigit := by
    rw [normal, Text.trimWhere_of_none fun c member => Text.not_blank_of_digit (digits c member)]
  have each : ∀ c ∈ text.map Text.plainDigit, (Text.baseDigit? 10 c).isSome = true := by
    intro c member
    obtain ⟨d, inside, rfl⟩ := List.mem_map.mp member
    exact Text.baseDigit?_plainDigit (digits d inside)
  obtain ⟨values, read, length⟩ := mapM_isSome each
  rw [List.length_map] at length
  have some : values.isEmpty = false := by
    rw [List.isEmpty_eq_false_iff]
    intro empty
    rw [empty] at length
    exact filled (List.length_eq_zero_iff.mp length.symm)
  simp only [integer?, trimmed, sign_of_digits digits, dropMark_ten, read, some, length]
  by_cases long : digitLimit < text.length
  · simp [long]
  · simp [long]
    omega

theorem mapM_eq_map {α β : Type} {f : α → Option β} {g : α → β} {items : List α}
    (each : ∀ item ∈ items, f item = some (g item)) : items.mapM f = some (items.map g) := by
  induction items with
  | nil => rfl
  | cons item rest ih =>
      rw [List.mapM_cons, each item List.mem_cons_self,
        ih fun other member => each other (List.mem_cons_of_mem _ member)]
      rfl

theorem foldDigits_repr (n : Nat) :
    foldDigits 10 (n.repr.toList.map fun c => c.toNat - 48) = n := by
  calc
    _ = Nat.ofDigitChars 10 (Nat.toDigits 10 n) 0 := by
      simp only [foldDigits, List.foldl_map, Nat.toList_repr, Nat.ofDigitChars, Nat.mul_comm]
      rfl
    _ = n := Nat.ofDigitChars_ten_toDigits

theorem integer?_repr {n : Nat} {value : Int} (found : integer? 10 n.repr.toList = some value) :
    value = n := by
  have digits : ∀ c ∈ n.repr.toList, Text.isDecimalDigit c = true := by
    intro c member
    rw [Text.isDecimalDigit, Text.digitValue?_of_isDigit (Text.isDigit_of_repr member)]
    rfl
  have plain : n.repr.toList.map Text.plainDigit = n.repr.toList :=
    (List.map_congr_left fun c member =>
      Text.plainDigit_of_isDigit (Text.isDigit_of_repr member)).trans (List.map_id _)
  have trimmed : normal n.repr.toList = n.repr.toList := by
    rw [normal, Text.trimWhere_of_none fun c member => Text.not_blank_of_digit (digits c member),
      plain]
  have signed : sign n.repr.toList = (false, n.repr.toList) := by
    rw [← plain, sign_of_digits digits, plain]
  have read : n.repr.toList.mapM (Text.baseDigit? 10) =
      some (n.repr.toList.map fun c => c.toNat - 48) :=
    mapM_eq_map fun c member => Text.baseDigit?_of_isDigit (Text.isDigit_of_repr member)
  simp only [integer?, trimmed, signed, dropMark_ten, read, foldDigits_repr, Bool.false_eq_true,
    ↓reduceIte] at found
  split at found
  · exact absurd found (by simp)
  · exact (Option.some.inj found).symm

end Numeral

theorem genericLabel_injective {m n : Int} (same : genericLabel m = genericLabel n) : m = n :=
  toString_injective (Text.ofString_inj.mp (Text.append_right_inj _ |>.mp same))

theorem chars_genericLabel (number : Int) :
    (genericLabel number).chars = "conditional_edge_".toList ++ (toString number).toList := by
  rw [genericLabel, Text.chars_append, Text.chars_ofString, Text.chars_ofString]

theorem mark_of_genericLabel (number : Int) :
    "conditional_edge".toList <+: (genericLabel number).chars := by
  have mark : "conditional_edge_".toList = "conditional_edge".toList ++ ['_'] := by decide
  rw [chars_genericLabel, mark, List.append_assoc]
  exact List.prefix_append _ _

namespace Spec.Document

theorem digits_of_generic {label : Text} {digits : List Char}
    (found : genericDigits? label = some digits) :
    digits ≠ [] ∧ ∀ c ∈ digits, Text.isDecimalDigit c = true := by
  have checked (body : List Char)
      (kept : (if body.isEmpty || !body.all Text.isDecimalDigit then none else some body) =
        some digits) : digits ≠ [] ∧ ∀ c ∈ digits, Text.isDecimalDigit c = true := by
    split at kept
    · exact absurd kept (by simp)
    · rename_i shape
      obtain rfl := Option.some.inj kept
      simp only [Bool.or_eq_true, Bool.not_eq_true', not_or, Bool.not_eq_true,
        Bool.not_eq_false] at shape
      exact ⟨List.isEmpty_eq_false_iff.mp shape.1, List.all_eq_true.mp shape.2⟩
  rw [genericDigits?] at found
  simp only at found
  split at found
  · exact checked _ found
  · exact absurd found (by simp)

/-- Labels whose number, if they have one, is not too long to be read. -/
def IsCountable (label : Text) : Prop :=
  ∀ digits, genericDigits? label = some digits → digits.length ≤ Numeral.digitLimit

instance (label : Text) : Decidable (IsCountable label) :=
  match found : genericDigits? label with
  | none => .isTrue fun digits same => absurd (found.symm.trans same) (by simp)
  | some digits =>
    if bound : digits.length ≤ Numeral.digitLimit then
      .isTrue fun _ same => Option.some.inj (found.symm.trans same) ▸ bound
    else .isFalse fun all => bound (all digits found)

theorem genericNumber_eq_ok_iff {label : Text} :
    (∃ number, genericNumber label = .ok number) ↔ IsCountable label := by
  unfold genericNumber IsCountable
  cases found : genericDigits? label with
  | none => simp
  | some digits =>
      obtain ⟨filled, all⟩ := digits_of_generic found
      have bound := Numeral.integer?_isSome_iff filled all
      dsimp only
      cases read : Numeral.integer? 10 digits with
      | none =>
          rw [read] at bound
          simpa using bound
      | some number =>
          rw [read] at bound
          simpa using bound

theorem greatestGeneric_eq_ok_iff {labels : List Text} :
    (∃ number, greatestGeneric labels = .ok number) ↔ ∀ label ∈ labels, IsCountable label := by
  induction labels with
  | nil =>
      constructor
      · exact fun _ label member => absurd member List.not_mem_nil
      · exact fun _ => ⟨0, rfl⟩
  | cons label rest ih =>
      rw [List.forall_mem_cons, ← ih, ← genericNumber_eq_ok_iff]
      cases here : genericNumber label with
      | error fault => simp [greatestGeneric, here]
      | ok number =>
          cases further : greatestGeneric rest with
          | error fault => simp [greatestGeneric, here, further, Except.map]
          | ok others => simp [greatestGeneric, here, further, Except.map]

theorem genericDigits?_genericLabel (n : Nat) :
    genericDigits? (genericLabel n) = some n.repr.toList := by
  have digits : ∀ c ∈ n.repr.toList, Text.isDecimalDigit c = true := by
    intro c member
    rw [Text.isDecimalDigit, Text.digitValue?_of_isDigit (Text.isDigit_of_repr member)]
    rfl
  have filled : n.repr.toList.isEmpty = false := by
    rw [List.isEmpty_eq_false_iff, Nat.toList_repr]
    exact Nat.toDigits_ne_nil
  have last : (n.repr.toList.getLast? == some '\n') = false := by
    rw [beq_eq_false_iff_ne]
    intro same
    have newline := digits '\n' (List.mem_of_getLast? same)
    exact absurd newline (by decide)
  have label : (genericLabel n).chars = "conditional_edge_".toList ++ n.repr.toList :=
    chars_genericLabel n
  have marked : "conditional_edge_".toList.isPrefixOf (genericLabel n).chars = true := by
    rw [label, List.isPrefixOf_iff_prefix]
    exact List.prefix_append _ _
  have rest : (genericLabel n).chars.drop "conditional_edge_".toList.length = n.repr.toList := by
    rw [label, List.drop_left]
  simp only [genericDigits?, marked, rest, last, filled, List.all_eq_true.mpr digits,
    Bool.false_eq_true, ↓reduceIte, Bool.not_true, Bool.or_false]

theorem genericNumber_genericLabel {n : Nat} {number : Option Int}
    (read : genericNumber (genericLabel n) = .ok number) : number = some (n : Int) := by
  rw [genericNumber, genericDigits?_genericLabel] at read
  dsimp only at read
  cases found : Numeral.integer? 10 n.repr.toList with
  | none =>
      rw [found] at read
      exact absurd read (by simp)
  | some value =>
      rw [found, Numeral.integer?_repr found] at read
      exact (Except.ok.inj read).symm

theorem le_greatestGeneric {labels : List Text} {greatest : Int}
    (read : greatestGeneric labels = .ok greatest) :
    0 ≤ greatest ∧ ∀ number, genericLabel number ∈ labels → number ≤ greatest := by
  induction labels generalizing greatest with
  | nil =>
      obtain rfl := Except.ok.inj read
      exact ⟨Int.le_refl 0, fun number member => absurd member List.not_mem_nil⟩
  | cons label rest ih =>
      rw [greatestGeneric] at read
      cases here : genericNumber label with
      | error fault => simp [here] at read
      | ok own =>
          cases further : greatestGeneric rest with
          | error fault => simp [here, further, Except.map] at read
          | ok others =>
              simp only [here, further, Except.map, Except.ok.injEq] at read
              obtain ⟨least, bound⟩ := ih further
              subst read
              refine ⟨by omega, fun number member => ?_⟩
              rcases List.mem_cons.mp member with same | deeper
              · cases number with
                | negSucc below => omega
                | ofNat n =>
                    rw [← same] at here
                    have equal := genericNumber_genericLabel here
                    rw [equal]
                    exact Int.le_max_left _ _
              · have below := bound number deeper
                omega

end Spec.Document

end Workflow
