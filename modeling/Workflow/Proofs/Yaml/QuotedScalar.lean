import Workflow.Proofs.Text.QuotedChar
import Workflow.Proofs.Yaml.PlainScalar
import Workflow.Yaml.Token.Quoted

/-! Quoted scalars: a quoted text reads back as the text, and what is read is never longer than what
it is read from. -/

namespace Workflow.Yaml

/-- Characters that a text may hold and that break no line but a plain one. -/
def isOrdinary (c : Char) : Bool :=
  isAllowed c && c != '\x85' && c != '\u2028' && c != '\u2029'

/-- Characters that quotes keep: ordinary ones, and those that are always escaped. -/
def isKept (c : Char) : Bool := isOrdinary c || decide (c.toNat < 0x20)

theorem isKept_of_ordinary {c : Char} (ordinary : isOrdinary c = true) : isKept c = true := by
  rw [isKept, ordinary, Bool.true_or]

theorem isAllowed_of_ordinary {c : Char} (ordinary : isOrdinary c = true) : isAllowed c = true := by
  simp only [isOrdinary, Bool.and_eq_true] at ordinary
  exact ordinary.1.1.1

theorem isOrdinary_of_kept {c : Char} (kept : isKept c = true) (allowed : isAllowed c = true) :
    isOrdinary c = true := by
  rcases Bool.or_eq_true _ _ |>.mp kept with ordinary | control
  · exact ordinary
  · have low : c.toNat < 0x20 := of_decide_eq_true control
    have different (d : Char) (high : 0x20 ≤ d.toNat) : c ≠ d := by
      intro equal
      subst equal
      omega
    simp [isOrdinary, allowed, different '\x85' (by decide), different '\u2028' (by decide),
      different '\u2029' (by decide)]

namespace Quoted

open Text (quotedChar hexFixed)

theorem plain_of_isOrdinary {c : Char} (ordinary : isOrdinary c = true) (visible : 0x20 ≤ c.toNat) :
    isBreak c = false ∧ c ≠ '\t' := by
  simp only [isOrdinary, Bool.and_eq_true, bne_iff_ne, ne_eq] at ordinary
  obtain ⟨⟨⟨_, next⟩, line⟩, paragraph⟩ := ordinary
  have newline : c ≠ '\n' := by
    intro equal
    subst equal
    exact absurd visible (by decide)
  have carriage : c ≠ '\r' := by
    intro equal
    subst equal
    exact absurd visible (by decide)
  refine ⟨by simp [isBreak, newline, carriage, next, line, paragraph], ?_⟩
  intro equal
  subst equal
  exact absurd visible (by decide)

theorem escape_hexFixed {c : Char} (control : c.toNat < 0x20) (rest : List Char) :
    escape ('u' :: (hexFixed 4 c.toNat ++ rest)) = .ok ([.char c], rest) := by
  have known : letter c.toNat = .ok (.char c) := by
    rw [letter, if_neg (by omega), if_neg (by omega), Letter.ofCode, dif_neg (by omega),
      Char.ofNat_toNat]
  have value : Numeral.foldDigits 16 [c.toNat / 16 / 16 / 16 % 16, c.toNat / 16 / 16 % 16,
      c.toNat / 16 % 16, c.toNat % 16] = c.toNat := by
    simp only [Numeral.foldDigits, List.foldl_cons, List.foldl_nil]
    omega
  have short : simpleEscapes.lookup 'u' = none := by decide
  have width : escapeWidth? 'u' = some 4 := by decide
  have digits : hexEscape 4 (hexFixed 4 c.toNat ++ rest) = .ok (.char c, rest) := by
    rw [Text.hexFixed_four]
    simp only [hexEscape, List.cons_append, List.nil_append, List.take_succ_cons, List.take_zero,
      List.mapM_cons, List.mapM_nil, Text.hexDigit?_hexDigit, Option.pure_def, Option.bind_eq_bind,
      Option.bind_some, List.length_cons, List.length_nil, value, known, List.drop_succ_cons,
      List.drop_zero]
    rfl
  simp only [escape, short, width, digits, Except.map]

theorem quotedChar_cases {c : Char} (kept : isKept c = true) :
    (quotedChar .every c = [c] ∧ isAllowed c = true ∧ c ≠ '\x22' ∧ c ≠ '\\' ∧ isBreak c = false ∧
        c ≠ '\t') ∨
      ∃ letters, quotedChar .every c = '\\' :: letters ∧ (∀ d ∈ letters, isAllowed d = true) ∧
        ∀ rest, escape (letters ++ rest) = .ok ([.char c], rest) := by
  rcases Text.quotedChar_forms c with
    ⟨raw, visible, quote, backslash⟩ | ⟨letter, escaped, short⟩ | ⟨unit, control⟩
  · have ordinary : isOrdinary c = true := by
      rcases Bool.or_eq_true _ _ |>.mp kept with ordinary | control
      · exact ordinary
      · exact absurd (of_decide_eq_true control) (Nat.not_lt.mpr visible)
    exact .inl ⟨raw, isAllowed_of_ordinary ordinary, quote, backslash,
      plain_of_isOrdinary ordinary visible⟩
  · have each : ∀ known ∈ Text.shortEscapes,
        isAllowed known.1 = true ∧ simpleEscapes.lookup known.1 = some known.2 := by decide
    obtain ⟨allowed, known⟩ := each (letter, c) short
    refine .inr ⟨[letter], escaped, by simpa using allowed, fun rest => ?_⟩
    simp only [List.singleton_append, escape, known]
  · refine .inr ⟨'u' :: hexFixed 4 c.toNat, unit, ?_, fun rest => escape_hexFixed control rest⟩
    have digit : ∀ value < 16, isAllowed (Nat.digitChar value) = true := by decide
    have hex (value : Nat) : isAllowed (Text.hexDigit value) = true :=
      digit (value % 16) (Nat.mod_lt value (by decide))
    intro d member
    rw [Text.hexFixed_four] at member
    simp only [List.mem_cons, List.not_mem_nil, or_false] at member
    rcases member with rfl | rfl | rfl | rfl | rfl
    · decide
    all_goals exact hex _

theorem gap_of_inside {c : Char} (rest : List Char) (blanks : Nat) (different : c ≠ ' ')
    (tab : c ≠ '\t') (ordinary : isBreak c = false) :
    gap (List.replicate blanks ' ' ++ c :: rest) = .ok (List.replicate blanks ' ', c :: rest) := by
  have taken : (List.replicate blanks ' ' ++ c :: rest).takeWhile isTabOrBlank =
      List.replicate blanks ' ' := by
    rw [List.takeWhile_append_of_pos (by simp [List.mem_replicate, isTabOrBlank])]
    simp [isTabOrBlank, different, tab]
  have dropped : (List.replicate blanks ' ' ++ c :: rest).dropWhile isTabOrBlank = c :: rest := by
    rw [List.dropWhile_append_of_pos (by simp [List.mem_replicate, isTabOrBlank])]
    simp [isTabOrBlank, different, tab]
  simp only [gap, taken, dropped, lineBreak?_cons ordinary, List.isEmpty_cons]
  rfl

theorem body_raw {c : Char} {rest : List Char} {fuel : Nat} {found : List Letter × List Char}
    (quote : c ≠ '\x22') (backslash : c ≠ '\\') (blank : c ≠ ' ') (tab : c ≠ '\t')
    (ordinary : isBreak c = false) (further : body true fuel rest = .ok found) :
    body true (fuel + 1) (c :: rest) = .ok (.char c :: found.1, found.2) := by
  simp [body, isTabOrBlank, quote, backslash, blank, tab, ordinary, further, Except.map]

theorem body_escape {c : Char} {letters rest : List Char} {fuel : Nat}
    {found : List Letter × List Char} (known : escape (letters ++ rest) = .ok ([.char c], rest))
    (further : body true fuel rest = .ok found) :
    body true (fuel + 1) ('\\' :: (letters ++ rest)) = .ok (.char c :: found.1, found.2) := by
  have inside : (isTabOrBlank '\\' || isBreak '\\') = false := by decide
  simp [body, inside, known, further, Except.map]

theorem body_blanks {c : Char} {rest : List Char} {fuel blanks : Nat}
    {found : List Letter × List Char} (different : c ≠ ' ') (tab : c ≠ '\t')
    (ordinary : isBreak c = false) (further : body true fuel (c :: rest) = .ok found) :
    body true (fuel + 1) (List.replicate (blanks + 1) ' ' ++ c :: rest) =
      .ok ((List.replicate (blanks + 1) ' ').map .char ++ found.1, found.2) := by
  have between := gap_of_inside rest (blanks + 1) different tab ordinary
  rw [List.replicate_succ, List.cons_append] at between ⊢
  have blank : (isTabOrBlank ' ' || isBreak ' ') = true := by decide
  simp [body, blank, between, further, Except.map]

theorem quoted_head {text : List Char} (kept : ∀ c ∈ text, isKept c = true)
    (noBlank : text.head? ≠ some ' ') (tail : List Char) :
    ∃ c rest, text.flatMap (quotedChar .every) ++ '\x22' :: tail = c :: rest ∧ c ≠ ' ' ∧ c ≠ '\t' ∧
      isBreak c = false := by
  cases text with
  | nil => exact ⟨'\x22', tail, rfl, by decide⟩
  | cons c rest =>
      rcases quotedChar_cases (kept c List.mem_cons_self) with
        ⟨raw, _, _, _, unbroken, tab⟩ | ⟨letters, escaped, _⟩
      · refine ⟨c, _, by rw [List.flatMap_cons, raw]; rfl, ?_, tab, unbroken⟩
        simpa using noBlank
      · exact ⟨'\\', _, by rw [List.flatMap_cons, escaped]; rfl, by decide⟩

theorem exists_blanks (text : List Char) :
    ∃ blanks rest, text = List.replicate blanks ' ' ++ rest ∧ rest.head? ≠ some ' ' := by
  induction text with
  | nil => exact ⟨0, [], rfl, by simp⟩
  | cons c text ih =>
      by_cases blank : c = ' '
      · obtain ⟨blanks, rest, same, noBlank⟩ := ih
        exact ⟨blanks + 1, rest, by rw [blank, same]; rfl, noBlank⟩
      · exact ⟨0, c :: text, rfl, by simpa using blank⟩

theorem flatMap_blanks (blanks : Nat) :
    (List.replicate blanks ' ').flatMap (quotedChar .every) = List.replicate blanks ' ' := by
  induction blanks with
  | zero => rfl
  | succ blanks ih =>
      rw [List.replicate_succ, List.flatMap_cons, ih]
      rfl

theorem body_quoted (fuel : Nat) (text tail : List Char)
    (kept : ∀ c ∈ text, isKept c = true)
    (enough : (text.flatMap (quotedChar .every)).length < fuel) :
    body true fuel (text.flatMap (quotedChar .every) ++ '\x22' :: tail) =
      .ok (text.map .char, tail) := by
  induction fuel generalizing text with
  | zero => omega
  | succ fuel ih =>
      obtain ⟨blanks, rest, rfl, noBlank⟩ := exists_blanks text
      have inRest : ∀ c ∈ rest, isKept c = true := fun c member =>
        kept c (List.mem_append_right _ member)
      rw [List.flatMap_append, flatMap_blanks] at enough ⊢
      cases blanks with
      | succ blanks =>
          have further := ih rest inRest (by
            simp only [List.length_append, List.length_replicate] at enough
            omega)
          obtain ⟨c, more, same, different, tab, unbroken⟩ := quoted_head inRest noBlank tail
          rw [same] at further
          rw [List.append_assoc, same]
          rw [List.map_append]
          exact body_blanks different tab unbroken further
      | zero =>
          rw [List.replicate_zero, List.nil_append] at enough ⊢
          cases rest with
          | nil => rfl
          | cons c rest =>
              rw [List.flatMap_cons, List.length_append] at enough
              rw [List.flatMap_cons, List.append_assoc]
              have inTail : ∀ d ∈ rest, isKept d = true := fun d member =>
                inRest d (List.mem_cons_of_mem _ member)
              rcases quotedChar_cases (inRest c List.mem_cons_self) with
                ⟨raw, _, quote, backslash, unbroken, tab⟩ | ⟨letters, escaped, _, known⟩
              · rw [raw] at enough ⊢
                have further := ih rest inTail (by simp only [List.length_singleton] at enough; omega)
                exact body_raw quote backslash (by simpa using noBlank) tab unbroken further
              · rw [escaped] at enough ⊢
                have further := ih rest inTail (by
                  simp only [List.length_cons] at enough
                  omega)
                rw [List.cons_append]
                exact body_escape (known _) further

/-- A quoted text, after its opening quote, reads back as the text. -/
theorem read_quoted {text : List Char} (kept : ∀ c ∈ text, isKept c = true)
    (tail : List Char) :
    read true (text.flatMap (quotedChar .every) ++ '\x22' :: tail) =
      .ok (.ofChars text, tail) := by
  rw [read, body_quoted _ text tail kept]
  · rfl
  simp only [List.length_append, List.length_cons]
  omega

end Quoted

end Workflow.Yaml
