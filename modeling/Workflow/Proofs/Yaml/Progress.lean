import Workflow.Yaml.Token.Lexer
import Workflow.Proofs.Yaml.TokenLength

/-! Reading a token takes text away, and a scalar is never longer than the text taken. Only a plain
scalar can be as long as all the text that was left. -/

namespace Workflow.Yaml

def Token.size : Token → Nat
  | .scalar content _ => content.letters.length
  | _ => 0

namespace Lexer

/-- Tokens without text may have been added. -/
structure Marks (s after : Lexer) : Prop where
  cursor : after.cursor = s.cursor
  tokens : ∀ token ∈ after.tokens, token ∈ s.tokens ∨ token.size = 0

/-- Text has been taken, and what was added is shorter than a bound. -/
structure Advances (bound : Nat) (s after : Lexer) : Prop where
  shorter : after.cursor.rest.length < s.cursor.rest.length
  tokens : ∀ token ∈ after.tokens, token ∈ s.tokens ∨ token.size < bound

theorem length_skipTo_le (cursor : Cursor) (rest : List Char) :
    (cursor.skipTo rest).rest.length ≤ rest.length := by
  rw [Cursor.skipTo, Cursor.rest_skip, List.length_drop]
  omega

theorem Marks.refl (s : Lexer) : Marks s s := ⟨rfl, fun _ => .inl⟩

theorem Marks.trans {s between after : Lexer} (first : Marks s between)
    (second : Marks between after) : Marks s after := by
  refine ⟨second.cursor.trans first.cursor, ?_⟩
  intro token member
  rcases second.tokens token member with known | empty
  · exact first.tokens token known
  · exact .inr empty

theorem marks_closeWhere (p : Nat → Bool) (s : Lexer) : Marks s (s.closeWhere p) := by
  rw [closeWhere]
  split
  · exact .refl s
  · refine ⟨rfl, ?_⟩
    intro token member
    rcases List.mem_append.mp member with closing | known
    · exact .inr (by rw [List.eq_of_mem_replicate closing]; rfl)
    · exact .inl known

theorem marks_forgetCandidate {s after : Lexer} (found : s.forgetCandidate = .ok after) :
    Marks s after := by
  rw [forgetCandidate] at found
  split at found
  · split at found
    · exact absurd found (by simp)
    · obtain rfl := Except.ok.inj found
      exact ⟨rfl, fun _ => .inl⟩
  · obtain rfl := Except.ok.inj found
    exact .refl s

theorem marks_saveCandidate {s after : Lexer} (found : s.saveCandidate = .ok after) :
    Marks s after := by
  rw [saveCandidate] at found
  split at found
  · obtain ⟨forgotten, known, rfl⟩ := except_map_eq_ok found
    have first := marks_forgetCandidate known
    exact ⟨first.cursor, first.tokens⟩
  · obtain rfl := Except.ok.inj found
    exact .refl s

theorem marks_openBlock {token : Token} (empty : token.size = 0) (column : Nat) (s : Lexer) :
    Marks s (s.openBlock token column) := by
  rw [openBlock]
  split
  · refine ⟨rfl, ?_⟩
    intro other member
    rcases List.mem_cons.mp member with rfl | known
    · exact .inr empty
    · exact .inl known
  · exact .refl s

theorem marks_insertKey (candidate : Candidate) (s : Lexer) : Marks s (s.insertKey candidate) := by
  refine ⟨rfl, ?_⟩
  intro token member
  simp only [insertKey, List.mem_append] at member
  rcases member with (recent | mark) | earlier
  · exact .inl (List.mem_of_mem_take recent)
  · split at mark
    · simp only [List.mem_cons, List.not_mem_nil, or_false] at mark
      rcases mark with rfl | rfl <;> exact .inr rfl
    · rw [List.mem_singleton.mp mark]
      exact .inr rfl
  · exact .inl (List.mem_of_mem_drop earlier)

theorem Marks.advances {s ready after : Lexer} {bound : Nat} (marks : Marks s ready)
    {rest : List Char} {token : Token} (shorter : rest.length < s.cursor.rest.length)
    (small : token.size < bound) (cursor : after.cursor = ready.cursor.skipTo rest)
    (tokens : after.tokens = token :: ready.tokens) : Advances bound s after := by
  refine ⟨?_, ?_⟩
  · rw [cursor]
    exact Nat.lt_of_le_of_lt (length_skipTo_le ready.cursor rest) shorter
  · intro other member
    rw [tokens] at member
    rcases List.mem_cons.mp member with rfl | known
    · exact .inr small
    · rcases marks.tokens other known with old | empty
      · exact .inl old
      · exact .inr (by omega)

variable {s after : Lexer} {c : Char} {rest : List Char}

theorem documentMark_advances {token : Token} (empty : token.size = 0)
    (filled : s.cursor.rest ≠ []) (found : s.documentMark token = .ok after) :
    Advances s.cursor.rest.length s after := by
  have positive := List.length_pos_iff.mpr filled
  obtain ⟨ready, known, rfl⟩ := except_map_eq_ok found
  have marks := (marks_closeWhere _ s).trans (marks_forgetCandidate known)
  refine marks.advances ?_ (by omega) rfl rfl
  rw [← marks.cursor] at positive ⊢
  simp only [List.length_drop]
  omega

theorem directive_advances (here : s.cursor.rest = c :: rest)
    (found : s.directive rest = .ok after) : Advances s.cursor.rest.length s after := by
  rw [directive] at found
  split at found
  · rename_i ready token tail known read
    obtain rfl := Except.ok.inj found
    obtain ⟨bound, kind⟩ := Property.length_of_directive read
    have empty : token.size = 0 := by
      cases token with
      | scalar content plain => exact absurd rfl (kind content plain)
      | _ => rfl
    have marks := (marks_closeWhere _ s).trans (marks_forgetCandidate known)
    rw [here, List.length_cons]
    exact marks.advances (by rw [here, List.length_cons]; omega) (by omega) rfl rfl
  · exact absurd found (by simp)
  · exact absurd found (by simp)

theorem openFlow_advances {token : Token} (empty : token.size = 0)
    (here : s.cursor.rest = c :: rest) (found : s.openFlow token rest = .ok after) :
    Advances s.cursor.rest.length s after := by
  obtain ⟨ready, known, rfl⟩ := except_map_eq_ok found
  rw [here, List.length_cons]
  exact (marks_saveCandidate known).advances (by rw [here, List.length_cons]; omega) (by omega) rfl rfl

theorem closeFlow_advances {token : Token} (empty : token.size = 0)
    (here : s.cursor.rest = c :: rest) (found : s.closeFlow token rest = .ok after) :
    Advances s.cursor.rest.length s after := by
  rw [closeFlow] at found
  split at found
  · rename_i ready candidate outer known _
    obtain rfl := Except.ok.inj found
    rw [here, List.length_cons]
    exact (marks_forgetCandidate known).advances (by rw [here, List.length_cons]; omega) (by omega)
      rfl rfl
  · exact absurd found (by simp)

theorem flowEntry_advances (here : s.cursor.rest = c :: rest)
    (found : s.flowEntry rest = .ok after) : Advances s.cursor.rest.length s after := by
  obtain ⟨ready, known, rfl⟩ := except_map_eq_ok found
  rw [here, List.length_cons]
  have small : Token.flowEntry.size < rest.length + 1 := Nat.succ_pos _
  exact (marks_forgetCandidate known).advances (by rw [here, List.length_cons]; omega) small rfl rfl

theorem blockMark_advances {opening mark : Token} {allowed : Bool} (first : opening.size = 0)
    (second : mark.size = 0) (here : s.cursor.rest = c :: rest)
    (found : s.blockMark opening mark allowed rest = .ok after) :
    Advances s.cursor.rest.length s after := by
  rw [blockMark] at found
  split at found
  · exact absurd found (by simp)
  · obtain ⟨ready, known, rfl⟩ := except_map_eq_ok found
    have opened : Marks s (if s.inFlow then s else s.openBlock opening s.cursor.column) := by
      split
      · exact .refl s
      · exact marks_openBlock first _ s
    rw [here, List.length_cons]
    exact (opened.trans (marks_forgetCandidate known)).advances
      (by rw [here, List.length_cons]; omega) (by omega) rfl rfl

theorem value_advances (here : s.cursor.rest = c :: rest) (found : s.value rest = .ok after) :
    Advances s.cursor.rest.length s after := by
  rw [value] at found
  split at found
  · rename_i candidate _
    obtain rfl := Except.ok.inj found
    rw [here, List.length_cons]
    have small : Token.value.size < rest.length + 1 := Nat.succ_pos _
    exact (marks_insertKey candidate s).advances (by rw [here, List.length_cons]; omega) small rfl rfl
  · exact blockMark_advances rfl rfl here found

theorem keyPart_advances {read : Except Error (Token × List Char)}
    (here : s.cursor.rest = c :: rest)
    (bound : ∀ {token tail}, read = .ok (token, tail) →
      tail.length ≤ rest.length ∧ token.size ≤ rest.length)
    (found : s.keyPart read = .ok after) : Advances s.cursor.rest.length s after := by
  unfold keyPart at found
  split at found
  · rename_i ready token tail known
    obtain rfl := Except.ok.inj found
    obtain ⟨shorter, small⟩ := bound rfl
    rw [here, List.length_cons]
    exact (marks_saveCandidate known).advances (by rw [here, List.length_cons]; omega) (by omega)
      rfl rfl
  · exact absurd found (by simp)
  · exact absurd found (by simp)

theorem namePart_advances {make : Text → Token} (empty : ∀ name, (make name).size = 0)
    (here : s.cursor.rest = c :: rest) (found : s.namePart make rest = .ok after) :
    Advances s.cursor.rest.length s after := by
  refine keyPart_advances here ?_ found
  intro token tail same
  obtain ⟨⟨name, last⟩, read, pair⟩ := except_map_eq_ok same
  obtain ⟨rfl, rfl⟩ := Prod.mk.inj pair
  exact ⟨Property.length_of_name read, by rw [empty]; exact Nat.zero_le _⟩

theorem tag_advances (here : s.cursor.rest = c :: rest)
    (found : s.keyPart (Property.tag rest) = .ok after) : Advances s.cursor.rest.length s after := by
  refine keyPart_advances here ?_ found
  intro token tail same
  obtain ⟨bound, handle, suffix, rfl⟩ := Property.length_of_tag same
  exact ⟨bound, Nat.zero_le _⟩

theorem blockScalar_advances {folded : Bool} (here : s.cursor.rest = c :: rest)
    (found : s.blockScalar folded rest = .ok after) : Advances s.cursor.rest.length s after := by
  rw [blockScalar] at found
  split at found
  · rename_i ready content tail known read
    obtain rfl := Except.ok.inj found
    have bound := Block.length_of_read read
    simp only at bound
    rw [here, List.length_cons]
    exact (marks_forgetCandidate known).advances (by rw [here, List.length_cons]; omega)
      (by simp only [Token.size, Text.letters_ofChars, List.length_map]; omega) rfl rfl
  · exact absurd found (by simp)
  · exact absurd found (by simp)

theorem quotedScalar_advances {double : Bool} (here : s.cursor.rest = c :: rest)
    (found : s.quotedScalar double rest = .ok after) : Advances s.cursor.rest.length s after := by
  refine keyPart_advances here ?_ found
  intro token tail same
  obtain ⟨⟨content, last⟩, read, pair⟩ := except_map_eq_ok same
  obtain ⟨rfl, rfl⟩ := Prod.mk.inj pair
  have bound := Quoted.length_of_read read
  simp only [Token.size] at bound ⊢
  omega

theorem ite_eq_cases {α : Type} {p : Prop} [Decidable p] {first second value : α}
    (same : (if p then first else second) = value) :
    p ∧ first = value ∨ ¬p ∧ second = value := by
  by_cases holds : p
  · exact .inl ⟨holds, by rwa [if_pos holds] at same⟩
  · exact .inr ⟨holds, by rwa [if_neg holds] at same⟩

/-- Every token but a plain scalar has less text than is left; one that begins with a plain scalar
is read as such. -/
theorem fetch_advances (here : s.cursor.rest = c :: rest) (found : s.fetch c rest = .ok after) :
    Advances s.cursor.rest.length s after ∨
      startsPlain s.inFlow c rest = true ∧ s.plainScalar = .ok after := by
  have filled : s.cursor.rest ≠ [] := by simp [here]
  rw [fetch] at found
  rcases ite_eq_cases found with ⟨_, found⟩ | ⟨_, found⟩
  · exact .inl (directive_advances here found)
  rcases ite_eq_cases found with ⟨_, found⟩ | ⟨_, found⟩
  · exact .inl (documentMark_advances rfl filled found)
  rcases ite_eq_cases found with ⟨_, found⟩ | ⟨_, found⟩
  · exact .inl (documentMark_advances rfl filled found)
  rcases ite_eq_cases found with ⟨_, found⟩ | ⟨_, found⟩
  · exact .inl (openFlow_advances rfl here found)
  rcases ite_eq_cases found with ⟨_, found⟩ | ⟨_, found⟩
  · exact .inl (openFlow_advances rfl here found)
  rcases ite_eq_cases found with ⟨_, found⟩ | ⟨_, found⟩
  · exact .inl (closeFlow_advances rfl here found)
  rcases ite_eq_cases found with ⟨_, found⟩ | ⟨_, found⟩
  · exact .inl (closeFlow_advances rfl here found)
  rcases ite_eq_cases found with ⟨_, found⟩ | ⟨_, found⟩
  · exact .inl (flowEntry_advances here found)
  rcases ite_eq_cases found with ⟨_, found⟩ | ⟨_, found⟩
  · exact .inl (blockMark_advances rfl rfl here found)
  rcases ite_eq_cases found with ⟨_, found⟩ | ⟨_, found⟩
  · exact .inl (blockMark_advances rfl rfl here found)
  rcases ite_eq_cases found with ⟨_, found⟩ | ⟨_, found⟩
  · exact .inl (value_advances here found)
  rcases ite_eq_cases found with ⟨_, found⟩ | ⟨_, found⟩
  · exact .inl (namePart_advances (fun _ => rfl) here found)
  rcases ite_eq_cases found with ⟨_, found⟩ | ⟨_, found⟩
  · exact .inl (namePart_advances (fun _ => rfl) here found)
  rcases ite_eq_cases found with ⟨_, found⟩ | ⟨_, found⟩
  · exact .inl (tag_advances here found)
  rcases ite_eq_cases found with ⟨_, found⟩ | ⟨_, found⟩
  · exact .inl (blockScalar_advances here found)
  rcases ite_eq_cases found with ⟨_, found⟩ | ⟨_, found⟩
  · exact .inl (blockScalar_advances here found)
  rcases ite_eq_cases found with ⟨_, found⟩ | ⟨_, found⟩
  · exact .inl (quotedScalar_advances here found)
  rcases ite_eq_cases found with ⟨_, found⟩ | ⟨_, found⟩
  · exact .inl (quotedScalar_advances here found)
  rcases ite_eq_cases found with ⟨plain, found⟩ | ⟨_, found⟩
  · exact .inr ⟨plain, found⟩
  · exact absurd found (by simp)

theorem inside_of_startsPlain {flow : Bool} (starts : startsPlain flow c rest = true) :
    Plain.ends flow c rest = false ∧ c ≠ '#' := by
  simp only [startsPlain, Bool.or_eq_true, Bool.and_eq_true, Bool.not_eq_true',
    beq_iff_eq] at starts
  rcases starts with ⟨visible, mark⟩ | ⟨solid, kind⟩
  · have other : ∀ d ∈ [':', '#', '?', ',', '[', ']', '\x7b', '\x7d'], c ≠ d := by
      rintro d member rfl
      simp only [List.mem_cons, List.not_mem_nil, or_false] at member
      rcases member with rfl | rfl | rfl | rfl | rfl | rfl | rfl | rfl <;>
        exact absurd mark (by decide)
    refine ⟨?_, other '#' (by simp)⟩
    have colon := other ':' (by simp)
    have noFlow : (c == '?' || Plain.isFlowMark c) = false := by
      simp [Plain.isFlowMark, other]
    simp only [Plain.ends, visible, beq_eq_false_iff_ne.mpr colon, noFlow, Bool.false_and,
      Bool.and_false, Bool.or_self]
  · rcases kind with rfl | ⟨block, kind⟩
    · refine ⟨?_, by decide⟩
      simp [Plain.ends, Plain.isFlowMark, isBreak]
    · rcases kind with rfl | rfl <;> refine ⟨?_, by decide⟩ <;>
        simp [Plain.ends, isBreak, solid, block]

theorem plainScalar_advances (here : s.cursor.rest = c :: rest)
    (starts : startsPlain s.inFlow c rest = true) (found : s.plainScalar = .ok after) :
    Advances (s.cursor.rest.length + 1) s after := by
  obtain ⟨inside, noComment⟩ := inside_of_startsPlain starts
  obtain ⟨ready, known, rfl⟩ := except_map_eq_ok found
  have bound := Plain.length_of_words s.inFlow s.margin (s.cursor.rest.length + 1)
    ⟨[], s.cursor.rest, false, 0⟩
  have some := Plain.content_of_words s.inFlow s.margin s.cursor.rest.length here inside noComment
  have positive := List.length_pos_iff.mpr some
  simp only [List.length_nil] at bound
  refine (marks_saveCandidate known).advances ?_ ?_ rfl rfl
  · simp only [Plain.read]
    omega
  · simp only [Token.size, Text.letters_ofChars, List.length_map, Plain.read]
    omega

theorem length_skipGaps_le (fuel : Nat) (text : List Char) :
    (skipGaps fuel text).1.length ≤ text.length := by
  induction fuel generalizing text with
  | zero => exact Nat.le_refl _
  | succ fuel ih =>
      have blanks := length_dropWhile_le (· == ' ') text
      have comment := length_dropComment_le (text.dropWhile (· == ' '))
      unfold skipGaps
      simp only
      generalize (if (text.dropWhile (· == ' ')).head? == some '#' then
        (text.dropWhile (· == ' ')).dropWhile (!isBreak ·) else text.dropWhile (· == ' ')) = ended
        at comment
      split
      · simp only
        omega
      · rename_i broken
        have consumed := length_of_lineBreak? broken
        have shorter := ih (by assumption)
        simp only
        omega

theorem length_toToken_le (s : Lexer) : s.toToken.cursor.rest.length ≤ s.cursor.rest.length := by
  rw [toToken]
  simp only [moveTo]
  refine Nat.le_trans (length_skipTo_le _ _) (Nat.le_trans (length_skipGaps_le _ _) ?_)
  split
  · simp
  · exact Nat.le_refl _

theorem length_toToken_lt {s : Lexer} (first : s.cursor.index = 0)
    (mark : s.cursor.rest.head? = some byteOrderMark) :
    s.toToken.cursor.rest.length < s.cursor.rest.length := by
  have filled : s.cursor.rest ≠ [] := by
    intro empty
    rw [empty] at mark
    exact absurd mark (by simp)
  have positive := List.length_pos_iff.mpr filled
  have gaps := length_skipGaps_le ((s.cursor.rest.drop 1).length + 1) (s.cursor.rest.drop 1)
  have skipped := length_skipTo_le s.cursor
    (skipGaps ((s.cursor.rest.drop 1).length + 1) (s.cursor.rest.drop 1)).1
  have shorter : (s.cursor.rest.drop 1).length < s.cursor.rest.length := by
    rw [List.length_drop]
    omega
  rw [toToken]
  simp only [first, mark, BEq.rfl, Bool.and_self, ↓reduceIte, moveTo]
  omega

theorem tokens_dropStale (found : s.dropStale = .ok after) :
    after.tokens = s.tokens ∧ after.cursor = s.cursor ∧ after.columns = s.columns ∧
      after.keyAllowed = s.keyAllowed := by
  rw [dropStale] at found
  split at found
  · obtain rfl := Except.ok.inj found
    exact ⟨rfl, rfl, rfl, rfl⟩
  · exact absurd found (by simp)

theorem mem_settled {token : Token} (member : token ∈ s.settled) : token ∈ s.tokens :=
  List.mem_reverse.mp (List.mem_of_mem_take member)

theorem tokens_of_finish {tokens : List Token} (found : s.finish = .ok tokens) {token : Token}
    (member : token ∈ tokens) : token ∈ s.tokens ∨ token.size = 0 := by
  obtain ⟨ready, known, rfl⟩ := except_map_eq_ok found
  exact ((marks_closeWhere _ s).trans (marks_forgetCandidate known)).tokens token
    (List.mem_reverse.mp member)

theorem rest_toToken (s : Lexer) : ∃ count, s.toToken.cursor.rest = s.cursor.rest.drop count := by
  rw [toToken]
  simp only [moveTo, Cursor.skipTo, Cursor.rest_skip]
  exact ⟨_, rfl⟩

theorem inFlow_dropStale (found : s.dropStale = .ok after) (block : s.inFlow = false) :
    after.inFlow = false := by
  rw [dropStale] at found
  simp only [inFlow, Bool.not_eq_false', List.isEmpty_iff] at block
  split at found
  · rename_i outer _ known
    obtain rfl := Except.ok.inj found
    rw [block] at known
    obtain rfl := Except.ok.inj known
    rfl
  · exact absurd found (by simp)

/-- All before the next token is taken: text that means nothing, and the ends of blocks. -/
structure Prepared (s ready : Lexer) : Prop where
  cursor : ready.cursor = s.toToken.cursor
  tokens : ∀ token ∈ ready.tokens, token ∈ s.tokens ∨ token.size = 0
  block : s.inFlow = false → ready.inFlow = false

theorem prepared_of_dropStale (found : s.toToken.dropStale = .ok after) :
    Prepared s (after.closeBlocks after.cursor.column) := by
  obtain ⟨sameTokens, sameCursor, _⟩ := tokens_dropStale found
  have closed : Marks after (after.closeBlocks after.cursor.column) := marks_closeWhere _ after
  constructor
  case cursor => exact closed.cursor.trans sameCursor
  case tokens =>
    intro token member
    have known := closed.tokens token member
    rwa [sameTokens] at known
  case block =>
    intro block
    have kept := inFlow_dropStale found block
    simp only [closeBlocks, closeWhere, kept]
    exact kept

/-- A token of a run was there before, is no more than a mark, or comes after the next fetch. -/
theorem mem_run {fuel : Nat} {token : Token} (member : token ∈ (run (fuel + 1) s).tokens) :
    (token ∈ s.tokens ∨ token.size = 0) ∨
      ∃ ready after c rest, Prepared s ready ∧ ready.cursor.rest = c :: rest ∧
        ready.fetch c rest = .ok after ∧ token ∈ (run fuel after).tokens := by
  rw [run] at member
  split at member
  · exact .inl (.inl (mem_settled member))
  · rename_i ready known
    have prepared := prepared_of_dropStale known
    simp only at member
    split at member
    · split at member
      · exact .inl (.inl (mem_settled member))
      · rename_i finished
        rcases tokens_of_finish finished member with old | empty
        · exact .inl (prepared.tokens token old)
        · exact .inl (.inr empty)
    · rename_i c rest here
      split at member
      · exact .inl (.inl (mem_settled member))
      · rename_i after fetched
        exact .inr ⟨_, after, c, rest, prepared, here, fetched, member⟩

theorem tokens_of_run (fuel : Nat) (s : Lexer) {token : Token} (member : token ∈ (run fuel s).tokens) :
    token ∈ s.tokens ∨ token.size ≤ s.cursor.rest.length := by
  induction fuel generalizing s with
  | zero => exact .inl (mem_settled member)
  | succ fuel ih =>
      rcases mem_run member with known | ⟨ready, after, c, rest, prepared, here, fetched, further⟩
      · exact known.imp_right (by omega)
      · have bound : ready.cursor.rest.length ≤ s.cursor.rest.length := by
          rw [prepared.cursor]
          exact length_toToken_le s
        have advances : Advances (s.cursor.rest.length + 1) ready after := by
          rcases fetch_advances here fetched with found | ⟨starts, found⟩
          · exact ⟨found.shorter, fun other inside =>
              (found.tokens other inside).imp_right (by omega)⟩
          · have plain := plainScalar_advances here starts found
            exact ⟨plain.shorter, fun other inside =>
              (plain.tokens other inside).imp_right (by omega)⟩
        have shorter := advances.shorter
        rcases ih after further with known | small
        · rcases advances.tokens token known with inside | small
          · exact (prepared.tokens token inside).imp_right (by omega)
          · exact .inr (by omega)
        · exact .inr (by omega)

theorem drop_of_content {flow : Bool} {margin count : Nat} {text : List Char}
    (whole : text = (Plain.read flow margin (text.drop count)).content) : text.drop count = text := by
  have long := Plain.length_of_words flow margin ((text.drop count).length + 1)
    ⟨[], text.drop count, false, 0⟩
  have complete := congrArg List.length whole
  simp only [Plain.read] at complete
  simp only [List.length_nil, List.length_drop] at long complete
  have zero : count = 0 ∨ text.length = 0 := by omega
  rcases zero with rfl | none
  · rfl
  · rw [List.length_eq_zero_iff.mp none, List.drop_nil]

/-- A first token with all the text in it is a plain scalar. -/
theorem content_of_scan {text : List Char} {plain : Bool} (filled : text ≠ [])
    (member : .scalar (.ofChars text) plain ∈ (Token.scan text).tokens) :
    ∃ margin c rest, (start text).toToken.cursor.rest = c :: rest ∧
      startsPlain false c rest = true ∧ text = (Plain.read false margin (c :: rest)).content := by
  have positive := List.length_pos_iff.mpr filled
  have size : (Token.scalar (.ofChars text) plain).size = text.length := List.length_map _
  rw [Token.scan] at member
  split at member
  · rcases mem_run member with known | ⟨ready, after, c, rest, prepared, here, fetched, further⟩
    · rcases known with old | empty
      · exact absurd old List.not_mem_nil
      · omega
    · have block := prepared.block rfl
      have bound : ready.cursor.rest.length ≤ text.length := by
        rw [prepared.cursor]
        exact length_toToken_le (start text)
      have fresh {token : Token} (inside : token ∈ ready.tokens) : token.size = 0 :=
        (prepared.tokens token inside).resolve_left List.not_mem_nil
      rcases fetch_advances here fetched with advances | ⟨starts, found⟩
      · have shorter := advances.shorter
        rcases tokens_of_run _ after further with inside | small
        · rcases advances.tokens _ inside with old | small
          · have := fresh old
            omega
          · omega
        · omega
      · have shorter := (plainScalar_advances here starts found).shorter
        obtain ⟨saved, kept, rfl⟩ := except_map_eq_ok found
        rcases tokens_of_run _ _ further with inside | small
        · rcases List.mem_cons.mp inside with same | old
          · rw [block] at starts
            refine ⟨ready.margin, c, rest, ?_, starts, ?_⟩
            · rw [← prepared.cursor, here]
            · rw [← here, ← block]
              exact Text.ofChars_injective (Token.scalar.inj same).1
          · rcases (marks_saveCandidate kept).tokens _ old with old | empty
            · have := fresh old
              omega
            · omega
        · omega
  · exact absurd member (by simp)

/-- A scalar with all the text in it is plain, and the text is one line. -/
theorem line_of_scan {text : List Char} {plain : Bool} (filled : text ≠ [])
    (ordinary : ∀ c ∈ text, c ≠ '\u2028' ∧ c ≠ '\u2029')
    (member : .scalar (.ofChars text) plain ∈ (Token.scan text).tokens) :
    ∃ c rest, text = c :: rest ∧ c ≠ byteOrderMark ∧ startsPlain false c rest = true ∧
      Plain.Line false text := by
  obtain ⟨margin, c, rest, here, starts, whole⟩ := content_of_scan filled member
  obtain ⟨count, dropped⟩ := rest_toToken (start text)
  change (start text).toToken.cursor.rest = text.drop count at dropped
  have all : text.drop count = text := by
    apply drop_of_content
    rw [← dropped, here]
    exact whole
  have same : text = c :: rest := by rw [← all, ← dropped, here]
  rw [← same] at whole
  refine ⟨c, rest, same, ?_, starts, Plain.line_of_read filled ordinary whole.symm⟩
  intro mark
  have first : (start text).cursor.rest.head? = some byteOrderMark := by
    rw [← mark]
    exact congrArg List.head? same
  have dropsMark := length_toToken_lt rfl first
  rw [dropped, all] at dropsMark
  exact Nat.lt_irrefl _ dropsMark

end Lexer

end Workflow.Yaml
