import Workflow.Yaml.Token.Plain

/-! Plain scalars of one line: words with blanks between them. A text that reads as itself is one,
and it reads as itself wherever what comes behind it ends the scalar. -/

namespace Workflow.Yaml

theorem lineBreak?_eq_some {text rest : List Char} {c : Char}
    (found : lineBreak? text = some (c, rest)) :
    ∃ first more, text = first :: more ∧ isBreak first ∧ rest.length ≤ more.length ∧
      (c = '\n' ∨ c = first ∧ (first = '\u2028' ∨ first = '\u2029')) := by
  unfold lineBreak? at found
  split at found
  · rename_i rest'
    obtain ⟨rfl, rfl⟩ := Prod.mk.inj (Option.some.inj found)
    exact ⟨'\r', '\n' :: rest', rfl, by decide, by simp, .inl rfl⟩
  · rename_i first rest' _
    split at found
    · rename_i plain
      obtain ⟨rfl, rfl⟩ := Prod.mk.inj (Option.some.inj found)
      refine ⟨first, rest', rfl, ?_, Nat.le_refl _, .inl rfl⟩
      simp only [isBreak, plain, Bool.true_or]
    · split at found
      · rename_i wide
        obtain ⟨rfl, rfl⟩ := Prod.mk.inj (Option.some.inj found)
        have wide' : first = '\u2028' ∨ first = '\u2029' := by simpa using wide
        refine ⟨first, rest', rfl, ?_, Nat.le_refl _, .inr ⟨rfl, wide'⟩⟩
        rcases wide' with rfl | rfl <;> decide
      · exact absurd found (by simp)
  · exact absurd found (by simp)

theorem lineBreak?_cons {c : Char} (ordinary : isBreak c = false) (rest : List Char) :
    lineBreak? (c :: rest) = none := by
  simp only [isBreak, Bool.or_eq_false_iff, beq_eq_false_iff_ne] at ordinary
  obtain ⟨⟨⟨⟨newline, carriage⟩, next⟩, line⟩, paragraph⟩ := ordinary
  unfold lineBreak?
  split
  · rename_i same
    exact absurd (List.cons.inj same).1 carriage
  · rename_i same
    obtain ⟨rfl, rfl⟩ := List.cons.inj same
    simp [newline, carriage, next, line, paragraph]
  · rfl

namespace Plain

/-- Whether a word ends where this text begins. -/
def stops (flow : Bool) : List Char → Bool
  | [] => true
  | c :: rest => ends flow c rest

/-- Whether no further word is taken from this text. -/
def closes (flow : Bool) (margin : Nat) (tail : List Char) : Bool :=
  let after := gap tail
  after.fill.isEmpty || after.rest.head? == some '#' ||
    (!flow && after.broken && decide (after.column < margin))

structure Word (flow : Bool) (word : List Char) : Prop where
  filled : word ≠ []
  noComment : word.head? ≠ some '#'
  whole : run flow word = (word, [])

inductive Line (flow : Bool) : List Char → Prop
  | last {word : List Char} (first : Word flow word) : Line flow word
  | more {word rest : List Char} (first : Word flow word) (blanks : Nat)
    (others : Line flow rest) : Line flow (word ++ (List.replicate (blanks + 1) ' ' ++ rest))

theorem run_cons_inside {flow : Bool} {c : Char} {rest : List Char}
    (inside : ends flow c rest = false) :
    run flow (c :: rest) = (c :: (run flow rest).1, (run flow rest).2) := by
  rw [run, if_neg (by simp [inside])]

theorem run_split (flow : Bool) (text : List Char) :
    (run flow text).1 ++ (run flow text).2 = text := by
  induction text with
  | nil => rfl
  | cons c rest ih =>
      cases ended : ends flow c rest with
      | true => rw [run, if_pos ended, List.nil_append]
      | false => rw [run_cons_inside ended, List.cons_append, ih]

theorem ends_append {flow : Bool} {c : Char} {rest : List Char} (inside : ends flow c rest = false)
    (tail : List Char) : ends flow c (rest ++ tail) = false := by
  cases rest with
  | cons d rest => simpa [ends, atGap, startsWith] using inside
  | nil =>
      simp only [ends, Bool.or_eq_false_iff] at inside
      obtain ⟨⟨blank, colon⟩, mark⟩ := inside
      have other : (c == ':') = false := by simpa [atGap] using colon
      simp only [ends, blank, other, mark, Bool.false_and, Bool.or_self]

theorem run_cons_whole {flow : Bool} {c : Char} {rest : List Char} :
    run flow (c :: rest) = (c :: rest, []) ↔ ends flow c rest = false ∧ run flow rest = (rest, []) := by
  cases ended : ends flow c rest with
  | true => simp [run, ended]
  | false => simp [run_cons_inside ended, Prod.ext_iff]

theorem run_append {flow : Bool} {word tail : List Char} (whole : run flow word = (word, []))
    (stop : stops flow tail = true) : run flow (word ++ tail) = (word, tail) := by
  induction word with
  | nil =>
      cases tail with
      | nil => rfl
      | cons c rest =>
          have ended : ends flow c rest = true := stop
          simp [run, ended]
  | cons c rest ih =>
      obtain ⟨inside, others⟩ := run_cons_whole.mp whole
      rw [List.cons_append, run_cons_inside (ends_append inside tail), ih others]

theorem run_before_blank {flow : Bool} {word : List Char} (tail : List Char)
    (found : run flow (word ++ ' ' :: tail) = (word, ' ' :: tail)) :
    run flow word = (word, []) := by
  induction word with
  | nil => rfl
  | cons c rest ih =>
      rw [List.cons_append, run] at found
      split at found
      · exact absurd (congrArg Prod.fst found) (by simp)
      · rename_i inside
        have parts := Prod.mk.inj found
        refine run_cons_whole.mpr ⟨?_, ih (Prod.ext (List.cons.inj parts.1).2 parts.2)⟩
        cases rest with
        | cons d rest => simpa [ends, atGap, startsWith] using inside
        | nil => simpa [ends, atGap, startsWith, isFlowMark] using inside

theorem Word.head {flow : Bool} {word : List Char} (first : Word flow word) :
    ∃ c rest, word = c :: rest ∧ ends flow c rest = false ∧ c ≠ '#' := by
  obtain ⟨filled, noComment, whole⟩ := first
  cases word with
  | nil => exact absurd rfl filled
  | cons c rest => exact ⟨c, rest, rfl, (run_cons_whole.mp whole).1, by simpa using noComment⟩

theorem Line.head {flow : Bool} {text : List Char} (line : Line flow text) :
    ∃ c rest, text = c :: rest ∧ ends flow c rest = false ∧ c ≠ '#' := by
  cases line with
  | last first => exact first.head
  | @more word rest first blanks others =>
      obtain ⟨c, tail, rfl, inside, noComment⟩ := first.head
      exact ⟨c, _, rfl, ends_append inside _, noComment⟩

theorem not_blank_of_inside {flow : Bool} {c : Char} {rest : List Char}
    (inside : ends flow c rest = false) : c ≠ ' ' ∧ c ≠ '\t' ∧ isBreak c = false := by
  simp only [ends, Bool.or_eq_false_iff, beq_eq_false_iff_ne] at inside
  exact ⟨inside.1.1.1.1, inside.1.1.1.2, inside.1.1.2⟩

theorem gap_of_blanks {c : Char} (rest : List Char) (blanks : Nat) (different : c ≠ ' ')
    (ordinary : isBreak c = false) :
    gap (List.replicate blanks ' ' ++ c :: rest) =
      ⟨List.replicate blanks ' ', c :: rest, false, 0⟩ := by
  have taken : (List.replicate blanks ' ' ++ c :: rest).takeWhile (· == ' ') =
      List.replicate blanks ' ' := by
    rw [List.takeWhile_append_of_pos (by simp [List.mem_replicate])]
    simp [different]
  have dropped : (List.replicate blanks ' ' ++ c :: rest).dropWhile (· == ' ') = c :: rest := by
    rw [List.dropWhile_append_of_pos (by simp [List.mem_replicate])]
    simp [different]
  simp only [gap, taken, dropped, lineBreak?_cons ordinary]

theorem stops_replicate (flow : Bool) (blanks : Nat) (tail : List Char) :
    stops flow (List.replicate (blanks + 1) ' ' ++ tail) = true := by
  simp [List.replicate_succ, stops, ends]

theorem words_word {flow : Bool} {margin fuel : Nat} {before : Gap} {word rest : List Char}
    (found : run flow before.rest = (word, rest)) (filled : word ≠ [])
    (noComment : before.rest.head? ≠ some '#') :
    words flow margin (fuel + 1) before =
      if closes flow margin rest then ⟨before.fill ++ word, (gap rest).rest, (gap rest).broken⟩
      else
        let further := words flow margin fuel (gap rest)
        ⟨before.fill ++ word ++ further.content, further.rest, further.broken⟩ := by
  have present : word.isEmpty = false := by simpa using filled
  have ordinary : (before.rest.head? == some '#') = false := by simpa using noComment
  simp only [words, found, present, ordinary, Bool.or_self, Bool.false_eq_true, ↓reduceIte]
  cases close : closes flow margin rest with
  | true =>
      simp only [closes] at close
      simp [close]
  | false =>
      simp only [closes] at close
      simp [close]

theorem words_line {flow : Bool} {margin : Nat} {text tail : List Char} (line : Line flow text)
    (stop : stops flow tail = true) (close : closes flow margin tail = true) (fuel : Nat)
    (enough : text.length < fuel) (fill : List Char) (broken : Bool) (column : Nat) :
    words flow margin fuel ⟨fill, text ++ tail, broken, column⟩ =
      ⟨fill ++ text, (gap tail).rest, (gap tail).broken⟩ := by
  induction line generalizing fuel fill broken column with
  | @last word first =>
      obtain ⟨c, rest, same, _, noComment⟩ := first.head
      cases fuel with
      | zero => omega
      | succ fuel =>
          rw [words_word (run_append first.whole stop) first.filled (by simp [same, noComment]),
            if_pos close]
  | @more word rest first blanks others ih =>
      obtain ⟨d, after, same, insideRest, noCommentRest⟩ := others.head
      obtain ⟨different, _, ordinary⟩ := not_blank_of_inside insideRest
      have between : gap (List.replicate (blanks + 1) ' ' ++ (rest ++ tail)) =
          ⟨List.replicate (blanks + 1) ' ', rest ++ tail, false, 0⟩ := by
        simpa [same] using gap_of_blanks (after ++ tail) (blanks + 1) different ordinary
      have further : closes flow margin (List.replicate (blanks + 1) ' ' ++ (rest ++ tail)) = false := by
        simp only [closes, between]
        simp [same, noCommentRest]
      obtain ⟨c, tailOfWord, sameWord, _, noComment⟩ := first.head
      cases fuel with
      | zero => omega
      | succ fuel =>
          have shorter : rest.length < fuel := by
            simp only [List.length_append, List.length_replicate] at enough
            omega
          have read := run_append first.whole (stops_replicate flow blanks (rest ++ tail))
          rw [List.append_assoc, List.append_assoc, words_word read first.filled
            (by simp [sameWord, noComment]), if_neg (by simp [further]), between,
            ih fuel shorter]
          simp

theorem read_line {flow : Bool} {margin : Nat} {text tail : List Char} (line : Line flow text)
    (stop : stops flow tail = true) (close : closes flow margin tail = true) :
    read flow margin (text ++ tail) = ⟨text, (gap tail).rest, (gap tail).broken⟩ := by
  have enough : text.length < (text ++ tail).length + 1 := by
    rw [List.length_append]
    omega
  simpa [read] using words_line line stop close _ enough [] false 0

theorem gap_of_mark {c : Char} (rest : List Char) (different : c ≠ ' ')
    (ordinary : isBreak c = false) : gap (c :: rest) = ⟨[], c :: rest, false, 0⟩ :=
  gap_of_blanks rest 0 different ordinary

theorem closes_of_mark (flow : Bool) (margin : Nat) {c : Char} (rest : List Char)
    (different : c ≠ ' ') (ordinary : isBreak c = false) :
    closes flow margin (c :: rest) = true := by
  simp [closes, gap_of_mark rest different ordinary]

theorem emptyLines_of_indent (fuel : Nat) {c : Char} (rest : List Char) (different : c ≠ ' ')
    (ordinary : isBreak c = false) (indent column : Nat) (enough : indent < fuel) :
    emptyLines fuel column (List.replicate indent ' ' ++ c :: rest) =
      (some [], c :: rest, column + indent) := by
  induction indent generalizing fuel column with
  | zero =>
      cases fuel with
      | zero => omega
      | succ fuel =>
          rw [List.replicate_zero, List.nil_append, emptyLines]
          · simp [lineBreak?_cons ordinary]
          · intro tail same
            exact different (List.cons.inj same).1
  | succ indent ih =>
      cases fuel with
      | zero => omega
      | succ fuel =>
          rw [List.replicate_succ, List.cons_append, emptyLines, ih fuel (column + 1) (by omega)]
          congr 2
          omega

theorem gap_of_indent {c : Char} {rest : List Char} (different : c ≠ ' ')
    (ordinary : isBreak c = false) (indent : Nat)
    (noDivider : atDivider (List.replicate indent ' ' ++ c :: rest) = false) :
    gap ('\n' :: (List.replicate indent ' ' ++ c :: rest)) = ⟨[' '], c :: rest, true, indent⟩ := by
  have enough : indent < (List.replicate indent ' ' ++ c :: rest).length + 1 := by
    rw [List.length_append, List.length_replicate]
    omega
  have lines := emptyLines_of_indent _ rest different ordinary indent 0 enough
  have found : lineBreak? ('\n' :: (List.replicate indent ' ' ++ c :: rest)) =
      some ('\n', List.replicate indent ' ' ++ c :: rest) := rfl
  simp only [gap]
  rw [List.takeWhile_cons_of_neg (by decide), List.dropWhile_cons_of_neg (by decide), found]
  simp only [noDivider, lines, fold]
  simp

theorem closes_of_indent {margin : Nat} {c : Char} {rest : List Char} (different : c ≠ ' ')
    (ordinary : isBreak c = false) {indent : Nat}
    (noDivider : atDivider (List.replicate indent ' ' ++ c :: rest) = false)
    (shallow : indent < margin) :
    closes false margin ('\n' :: (List.replicate indent ' ' ++ c :: rest)) = true := by
  simp only [closes, gap_of_indent different ordinary indent noDivider]
  simp [shallow]

theorem length_of_emptyLines (fuel column : Nat) (text : List Char) :
    ((emptyLines fuel column text).1.getD []).length + (emptyLines fuel column text).2.1.length ≤
      text.length := by
  induction fuel generalizing column text with
  | zero => simp [emptyLines]
  | succ fuel ih =>
      unfold emptyLines
      split
      · rename_i rest
        have shorter := ih (column + 1) rest
        simp only [List.length_cons]
        omega
      · split
        · simp
        · rename_i c rest broken
          have consumed := length_of_lineBreak? broken
          split
          · simp only [Option.getD_none, List.length_nil]
            omega
          · have shorter := ih 0 rest
            generalize emptyLines fuel 0 rest = found at shorter
            obtain ⟨breaks?, after, reached⟩ := found
            cases breaks? with
            | none =>
                simp only [Option.map_none, Option.getD_none, List.length_nil] at shorter ⊢
                omega
            | some breaks =>
                simp only [Option.map_some, Option.getD_some, List.length_cons] at shorter ⊢
                omega

theorem length_fold_le (first : Char) (breaks : List Char) :
    (fold first breaks).length ≤ breaks.length + 1 := by
  rw [fold]
  split
  · simp
  · split <;> simp

/-- What a gap over several lines is folded to, and how much shorter that is. -/
theorem gap_of_broken {text : List Char} {first : Char} {rest : List Char}
    (found : lineBreak? (text.dropWhile (· == ' ')) = some (first, rest)) :
    (gap text).fill = [] ∧ (gap text).rest.length ≤ rest.length ∨
      ∃ breaks, (gap text).fill = fold first breaks ∧
        breaks.length + (gap text).rest.length ≤ rest.length := by
  simp only [gap, found]
  split
  · exact .inl ⟨rfl, Nat.le_refl _⟩
  · have bound := length_of_emptyLines (rest.length + 1) 0 rest
    split
    · rename_i after column same
      rw [same] at bound
      exact .inl ⟨rfl, by simpa using bound⟩
    · rename_i breaks after column same
      rw [same] at bound
      exact .inr ⟨breaks, rfl, bound⟩

theorem length_of_gap (text : List Char) :
    (gap text).fill.length + (gap text).rest.length ≤ text.length := by
  have split := congrArg List.length (List.takeWhile_append_dropWhile (p := (· == ' ')) (l := text))
  rw [List.length_append] at split
  cases found : lineBreak? (text.dropWhile (· == ' ')) with
  | none =>
      simp only [gap, found]
      omega
  | some pair =>
      obtain ⟨first, rest⟩ := pair
      have consumed := length_of_lineBreak? found
      rcases gap_of_broken found with ⟨empty, bound⟩ | ⟨breaks, filled, bound⟩
      · rw [empty, List.length_nil]
        omega
      · have folded := length_fold_le first breaks
        rw [filled]
        omega

theorem length_of_words (flow : Bool) (margin fuel : Nat) (before : Gap) :
    (words flow margin fuel before).content.length + (words flow margin fuel before).rest.length ≤
      before.fill.length + before.rest.length := by
  induction fuel generalizing before with
  | zero => simp [words]
  | succ fuel ih =>
      have split := congrArg List.length (run_split flow before.rest)
      obtain ⟨word, rest, found⟩ : ∃ word rest, run flow before.rest = (word, rest) :=
        ⟨_, _, rfl⟩
      rw [found, List.length_append] at split
      change word.length + rest.length = before.rest.length at split
      have between := length_of_gap rest
      by_cases empty : word = []
      · simp [words, found, empty]
      · by_cases comment : before.rest.head? = some '#'
        · simp [words, comment]
        · rw [words_word found empty comment]
          split
          · simp only [List.length_append]
            omega
          · have further := ih (gap rest)
            simp only [List.length_append]
            omega

theorem fill_of_words (flow : Bool) (margin fuel : Nat) (before : Gap) :
    (words flow margin fuel before).content = [] ∨
      before.fill <+: (words flow margin fuel before).content := by
  cases fuel with
  | zero => exact .inl rfl
  | succ fuel =>
      obtain ⟨word, rest, found⟩ : ∃ word rest, run flow before.rest = (word, rest) :=
        ⟨_, _, rfl⟩
      by_cases empty : word = []
      · exact .inl (by simp [words, found, empty])
      · by_cases comment : before.rest.head? = some '#'
        · exact .inl (by simp [words, comment])
        · rw [words_word found empty comment]
          split
          · exact .inr ⟨_, rfl⟩
          · exact .inr ⟨_, (List.append_assoc _ _ _).symm⟩

theorem content_of_words (flow : Bool) (margin fuel : Nat) {text : List Char} {c : Char}
    {rest : List Char} (here : text = c :: rest) (inside : ends flow c rest = false)
    (noComment : c ≠ '#') :
    (words flow margin (fuel + 1) ⟨[], text, false, 0⟩).content ≠ [] := by
  obtain ⟨word, after, found⟩ : ∃ word after, run flow text = (word, after) := ⟨_, _, rfl⟩
  have filled : word ≠ [] := by
    rw [here, run_cons_inside inside] at found
    rw [← (Prod.mk.inj found).1]
    exact List.cons_ne_nil _ _
  rw [words_word found filled (by simp [here, noComment])]
  split <;> simp [filled]

theorem unbroken_of_words {margin fuel : Nat} {text : List Char}
    (ordinary : ∀ c ∈ text, c ≠ '\u2028' ∧ c ≠ '\u2029') (filled : (gap text).fill ≠ [])
    (same : (words false margin fuel (gap text)).content = text) :
    lineBreak? (text.dropWhile (· == ' ')) = none := by
  cases found : lineBreak? (text.dropWhile (· == ' ')) with
  | none => rfl
  | some pair =>
      obtain ⟨first, rest⟩ := pair
      exfalso
      obtain ⟨c, more, dropped, isBreak, shorter, kind⟩ := lineBreak?_eq_some found
      have newline : first = '\n' := by
        rcases kind with newline | ⟨_, wide⟩
        · exact newline
        · have member : c ∈ text := by
            apply List.dropWhile_subset (· == ' ')
            rw [dropped]
            exact List.mem_cons_self
          exact absurd wide (by simp [ordinary c member])
      have split := List.takeWhile_append_dropWhile (p := (· == ' ')) (l := text)
      rw [dropped] at split
      have total := congrArg List.length split
      have bound := length_of_words false margin fuel (gap text)
      rw [same] at bound
      simp only [List.length_append, List.length_cons] at total
      rcases gap_of_broken found with ⟨empty, _⟩ | ⟨breaks, folded, after⟩
      · exact filled empty
      · cases breaks with
        | cons d breaks =>
            have plain : fold first (d :: breaks) = d :: breaks := by simp [fold, newline]
            rw [folded, plain] at bound
            omega
        | nil =>
            have blank : fold first [] = [' '] := by simp [fold, newline]
            rw [folded, blank] at bound
            have none : text.takeWhile (· == ' ') = [] := by
              apply List.eq_nil_of_length_eq_zero
              simp only [List.length_nil, List.length_cons] at after bound
              omega
            rcases fill_of_words false margin fuel (gap text) with empty | front
            · rw [same] at empty
              simp [empty] at total
            · rw [same, folded, blank, ← split, none, List.nil_append] at front
              have head := (List.cons_prefix_cons.mp front).1
              rw [← head] at isBreak
              exact absurd isBreak (by decide)

theorem words_of_nil (flow : Bool) (margin fuel : Nat) (fill : List Char) (broken : Bool)
    (column : Nat) : (words flow margin fuel ⟨fill, [], broken, column⟩).content = [] := by
  cases fuel <;> simp [words, run]

theorem exists_replicate_takeWhile (text : List Char) (some : text.takeWhile (· == ' ') ≠ []) :
    ∃ count, text.takeWhile (· == ' ') = List.replicate (count + 1) ' ' := by
  refine ⟨(text.takeWhile (· == ' ')).length - 1, List.eq_replicate_iff.mpr ⟨?_, ?_⟩⟩
  · have := List.length_pos_iff.mpr some
    omega
  · intro c member
    have all : (text.takeWhile (· == ' ')).all (· == ' ') = true := List.all_takeWhile
    simpa using List.all_eq_true.mp all c member

/-- Only a text without line breaks can be read as itself: a break inside it is folded away. -/
theorem line_of_words {margin fuel : Nat} {before : Gap} (filled : before.rest ≠ [])
    (ordinary : ∀ c ∈ before.rest, c ≠ '\u2028' ∧ c ≠ '\u2029')
    (same : (words false margin fuel before).content = before.fill ++ before.rest) :
    Line false before.rest := by
  induction fuel generalizing before with
  | zero => simp [words, filled] at same
  | succ fuel ih =>
      have split := run_split false before.rest
      obtain ⟨word, rest, found⟩ : ∃ word rest, run false before.rest = (word, rest) :=
        ⟨_, _, rfl⟩
      rw [found] at split
      change word ++ rest = before.rest at split
      by_cases empty : word = []
      · simp [words, found, empty, filled] at same
      · by_cases comment : before.rest.head? = some '#'
        · simp [words, comment, filled] at same
        · have noComment : word.head? ≠ some '#' := by
            intro head
            apply comment
            rw [← split, List.head?_append, head, Option.some_or]
          rw [words_word found empty comment] at same
          by_cases close : closes false margin rest = true
          · rw [if_pos close, List.append_cancel_left_eq] at same
            have whole : run false word = (word, []) := by
              have none : rest = [] := by simpa [← same] using split
              rw [none, ← same] at found
              exact found
            rw [← same]
            exact .last ⟨empty, noComment, whole⟩
          · rw [if_neg close] at same
            have further : (words false margin fuel (gap rest)).content = rest := by
              have all : word ++ (words false margin fuel (gap rest)).content = word ++ rest := by
                rw [split]
                simpa using same
              exact List.append_cancel_left all
            have notBlank : (gap rest).fill ≠ [] := by
              intro none
              exact close (by simp [closes, none])
            have inside : ∀ c ∈ rest, c ≠ '\u2028' ∧ c ≠ '\u2029' := by
              intro c member
              exact ordinary c (by rw [← split]; exact List.mem_append_right _ member)
            have unbroken := unbroken_of_words inside notBlank further
            have parts := List.takeWhile_append_dropWhile (p := (· == ' ')) (l := rest)
            have between : gap rest = ⟨rest.takeWhile (· == ' '), rest.dropWhile (· == ' '), false, 0⟩ := by
              simp only [gap, unbroken]
            rw [between] at notBlank further
            have others : Line false (rest.dropWhile (· == ' ')) := by
              refine @ih ⟨rest.takeWhile (· == ' '), rest.dropWhile (· == ' '), false, 0⟩ ?_ ?_ ?_
              · intro (none : rest.dropWhile (· == ' ') = [])
                rw [none, words_of_nil] at further
                exact notBlank (by simp [← further])
              · intro c member
                exact inside c (List.dropWhile_subset _ member)
              · rw [further, parts]
            obtain ⟨blanks, blank⟩ := exists_replicate_takeWhile rest notBlank
            rw [blank] at parts
            have whole : run false word = (word, []) := by
              apply run_before_blank (List.replicate blanks ' ' ++ rest.dropWhile (· == ' '))
              rw [← List.cons_append, ← List.replicate_succ, parts, split, found]
            rw [← split, ← parts]
            exact .more ⟨empty, noComment, whole⟩ blanks others

theorem line_of_read {margin : Nat} {text : List Char} (filled : text ≠ [])
    (ordinary : ∀ c ∈ text, c ≠ '\u2028' ∧ c ≠ '\u2029')
    (same : (read false margin text).content = text) : Line false text :=
  @line_of_words margin _ ⟨[], text, false, 0⟩ filled ordinary same

end Plain

end Workflow.Yaml
