import Workflow.Proofs.Yaml.Progress

/-! Where the next token begins: what is skipped before it, and the column it is at. -/

namespace Workflow.Yaml

namespace Cursor

theorem skip_add (first second : Nat) (cursor : Cursor) :
    cursor.skip (first + second) = (cursor.skip first).skip second := by
  induction first generalizing cursor with
  | zero => rw [Nat.zero_add]; rfl
  | succ first ih => rw [Nat.succ_add, skip, skip, ih]

theorem next_of_ordinary {c : Char} {rest : List Char} {index line column : Nat}
    (ordinary : isBreak c = false) (noMark : c ≠ byteOrderMark) :
    next ⟨c :: rest, index, line, column⟩ = ⟨rest, index + 1, line, column + 1⟩ := by
  simp [next, ordinary, noMark]

theorem next_of_newline (rest : List Char) (index line column : Nat) :
    next ⟨'\n' :: rest, index, line, column⟩ = ⟨rest, index + 1, line + 1, 0⟩ := by
  simp [next, isBreak]

theorem skip_of_ordinary {word : List Char} (rest : List Char) (index line column : Nat)
    (ordinary : ∀ c ∈ word, isBreak c = false ∧ c ≠ byteOrderMark) :
    skip word.length ⟨word ++ rest, index, line, column⟩ =
      ⟨rest, index + word.length, line, column + word.length⟩ := by
  induction word generalizing index column with
  | nil => rfl
  | cons c word ih =>
      obtain ⟨unbroken, noMark⟩ := ordinary c List.mem_cons_self
      have further := ih (index + 1) (column + 1) fun d member =>
        ordinary d (List.mem_cons_of_mem _ member)
      rw [List.length_cons, skip, List.cons_append, next_of_ordinary unbroken noMark, further]
      simp only [mk.injEq, true_and]
      omega

theorem skip_blanks (blanks : Nat) (rest : List Char) (index line column : Nat) :
    skip blanks ⟨List.replicate blanks ' ' ++ rest, index, line, column⟩ =
      ⟨rest, index + blanks, line, column + blanks⟩ := by
  have ordinary : ∀ c ∈ List.replicate blanks ' ', isBreak c = false ∧ c ≠ byteOrderMark := by
    intro c member
    rw [List.eq_of_mem_replicate member]
    decide
  simpa using skip_of_ordinary rest index line column ordinary

theorem skipTo_append (first rest : List Char) (index line column : Nat) :
    skipTo rest ⟨first ++ rest, index, line, column⟩ =
      skip first.length ⟨first ++ rest, index, line, column⟩ := by
  rw [skipTo, List.length_append, Nat.add_sub_cancel]

theorem skipTo_next {c : Char} (rest : List Char) (index line column : Nat)
    (ordinary : isBreak c = false) (noMark : c ≠ byteOrderMark) :
    skipTo rest ⟨c :: rest, index, line, column⟩ = ⟨rest, index + 1, line, column + 1⟩ := by
  have one := skipTo_append [c] rest index line column
  rw [List.singleton_append] at one
  rw [one, List.length_singleton, skip, skip, next_of_ordinary ordinary noMark]

theorem skipTo_line {cursor : Cursor} (before : List Char) {indent : Nat} {rest : List Char}
    (here : cursor.rest = before ++ '\n' :: (List.replicate indent ' ' ++ rest)) :
    ∃ index line, cursor.skipTo rest = ⟨rest, index, line, indent⟩ := by
  have length : cursor.rest.length - rest.length = before.length + (1 + indent) := by
    rw [here]
    simp only [List.length_append, List.length_cons, List.length_replicate]
    omega
  have reached : (cursor.skip before.length).rest =
      '\n' :: (List.replicate indent ' ' ++ rest) := by
    rw [rest_skip, here, List.drop_left]
  rw [skipTo, length, skip_add, skip_add]
  generalize cursor.skip before.length = middle at reached
  obtain ⟨text, index, line, column⟩ := middle
  obtain rfl := reached
  refine ⟨index + 1 + indent, line + 1, ?_⟩
  rw [skip, skip, next_of_newline, skip_blanks, Nat.zero_add]

end Cursor

namespace Lexer

/-- Nothing is skipped at the start of such a text. -/
def Solid (text : List Char) : Prop :=
  ∀ c rest, text = c :: rest → c ≠ ' ' ∧ c ≠ '#' ∧ isBreak c = false ∧ c ≠ byteOrderMark

theorem solid_nil : Solid [] := by
  intro c rest same
  exact absurd same (by simp)

theorem solid_cons {c : Char} {rest : List Char} (blank : c ≠ ' ') (comment : c ≠ '#')
    (ordinary : isBreak c = false) (noMark : c ≠ byteOrderMark) : Solid (c :: rest) := by
  intro d tail same
  obtain ⟨rfl, rfl⟩ := List.cons.inj same
  exact ⟨blank, comment, ordinary, noMark⟩

theorem dropWhile_blanks {text : List Char} (blanks : Nat) (solid : text.head? ≠ some ' ') :
    (List.replicate blanks ' ' ++ text).dropWhile (· == ' ') = text := by
  rw [List.dropWhile_append_of_pos (by simp [List.mem_replicate])]
  cases text with
  | nil => rfl
  | cons c rest => exact List.dropWhile_cons_of_neg (by simpa using solid)

theorem skipGaps_solid {text : List Char} (solid : Solid text) (blanks fuel : Nat) :
    skipGaps (fuel + 1) (List.replicate blanks ' ' ++ text) = (text, false) := by
  cases text with
  | nil =>
      have dropped := @dropWhile_blanks [] blanks (by simp)
      simp only [skipGaps, dropped]
      rfl
  | cons c rest =>
      obtain ⟨blank, comment, ordinary, _⟩ := solid c rest rfl
      have dropped := @dropWhile_blanks (c :: rest) blanks (by simpa using blank)
      simp [skipGaps, dropped, comment, lineBreak?_cons ordinary]

theorem skipGaps_newline (fuel : Nat) (rest : List Char) :
    skipGaps (fuel + 1) ('\n' :: rest) = ((skipGaps fuel rest).1, true) := by
  have found : lineBreak? ('\n' :: rest) = some ('\n', rest) := rfl
  simp [skipGaps, found]

theorem skipGaps_comment (fuel : Nat) {comment : List Char} (rest : List Char)
    (oneLine : ∀ c ∈ comment, isBreak c = false) :
    skipGaps (fuel + 1) ('#' :: (comment ++ '\n' :: rest)) = ((skipGaps fuel rest).1, true) := by
  have found : lineBreak? ('\n' :: rest) = some ('\n', rest) := rfl
  have dropped : ('#' :: (comment ++ '\n' :: rest)).dropWhile (!isBreak ·) = '\n' :: rest := by
    rw [List.dropWhile_cons_of_pos (by decide), List.dropWhile_append_of_pos]
    · exact List.dropWhile_cons_of_neg (by decide)
    · intro c member
      simp [oneLine c member]
  simp [skipGaps, dropped, found]

theorem moveTo_self (s : Lexer) : s.moveTo s.cursor.rest = s := by
  simp [moveTo, Cursor.skipTo, Cursor.skip]

theorem toToken_solid {s : Lexer} (solid : Solid s.cursor.rest) : s.toToken = s := by
  have noMark : s.cursor.rest.head? ≠ some byteOrderMark := by
    cases here : s.cursor.rest with
    | nil => simp
    | cons c rest => simpa using (solid c rest here).2.2.2
  have skipped := skipGaps_solid solid 0 s.cursor.rest.length
  rw [List.replicate_zero, List.nil_append] at skipped
  simp [toToken, noMark, skipped, moveTo_self]

theorem toToken_blanks {s : Lexer} {text : List Char} {index line column blanks : Nat}
    (here : s.cursor = ⟨List.replicate (blanks + 1) ' ' ++ text, index, line, column⟩)
    (solid : Solid text) :
    s.toToken =
      { s with cursor := ⟨text, index + (blanks + 1), line, column + (blanks + 1)⟩ } := by
  have noMark : s.cursor.rest.head? ≠ some byteOrderMark := by
    rw [here]
    simp [List.replicate_succ, byteOrderMark]
  have skipped := skipGaps_solid solid (blanks + 1) s.cursor.rest.length
  have moved := Cursor.skipTo_append (List.replicate (blanks + 1) ' ') text index line column
  rw [List.length_replicate, Cursor.skip_blanks] at moved
  have rest : s.cursor.rest = List.replicate (blanks + 1) ' ' ++ text := by rw [here]
  rw [rest] at skipped
  rw [toToken]
  simp only [beq_eq_false_iff_ne.mpr noMark, Bool.and_false, Bool.false_eq_true, ↓reduceIte]
  rw [rest, skipped]
  simp [moveTo, here, moved]

theorem toToken_line {s : Lexer} {text : List Char} {indent : Nat}
    (here : s.cursor.rest = '\n' :: (List.replicate indent ' ' ++ text)) (solid : Solid text) :
    ∃ index line, s.toToken =
      { s with
        cursor := ⟨text, index, line, indent⟩, keyAllowed := s.keyAllowed || !s.inFlow } := by
  obtain ⟨index, line, moved⟩ := Cursor.skipTo_line [] here
  refine ⟨index, line, ?_⟩
  have noMark : s.cursor.rest.head? ≠ some byteOrderMark := by
    rw [here]
    simp [byteOrderMark]
  have skipped : skipGaps (s.cursor.rest.length + 1) s.cursor.rest = (text, true) := by
    rw [here, skipGaps_newline, List.length_cons, skipGaps_solid solid]
  rw [toToken]
  simp only [beq_eq_false_iff_ne.mpr noMark, Bool.and_false, Bool.false_eq_true, ↓reduceIte]
  rw [skipped]
  simp [moveTo, moved]

end Lexer

end Workflow.Yaml
