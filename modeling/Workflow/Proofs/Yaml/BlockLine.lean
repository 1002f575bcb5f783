import Workflow.Proofs.Yaml.Lexing

/-! The parts of a line of a block: keys, marks of entries, and scalars as values. -/

namespace Workflow.Yaml

namespace Lexer

theorem startsPlain_append {flow : Bool} {c : Char} {rest : List Char}
    (starts : startsPlain flow c rest = true) (tail : List Char) :
    startsPlain flow c (rest ++ tail) = true := by
  cases rest with
  | nil =>
      simp only [startsPlain, atGap, Bool.not_true, Bool.false_and, Bool.or_false] at starts
      simp only [startsPlain, starts, Bool.true_or]
  | cons d others => exact starts

theorem startsPlain_cases {flow : Bool} {c : Char} {rest : List Char}
    (starts : startsPlain flow c rest = true) :
    isIndicator c = false ∨ (atGap rest = false ∧ (c = '-' ∨ (flow = false ∧ (c = '?' ∨ c = ':')))) := by
  simp only [startsPlain, Bool.or_eq_true, Bool.and_eq_true, Bool.not_eq_true', beq_iff_eq] at starts
  rcases starts with ⟨_, ordinary⟩ | special
  · exact .inl ordinary
  · exact .inr special

theorem atDivider_cons {c : Char} (notDash : c ≠ '-') (notPoint : c ≠ '.') (rest : List Char) :
    atDivider (c :: rest) = false := by
  simp [atDivider, notDash, notPoint]

theorem fetch_plain {s : Lexer} {c : Char} {rest : List Char}
    (starts : startsPlain s.inFlow c rest = true)
    (inside : s.cursor.column ≠ 0 ∨ atDivider (c :: rest) = false) : s.fetch c rest = s.plainScalar := by
  have margin (mark : Char) :
      (c == mark && s.cursor.column == 0 && atDivider (c :: rest)) = false := by
    rcases inside with column | whole
    · simp [column]
    · simp [whole]
  have other (mark : Char) (indicator : isIndicator mark = true)
      (free : mark ≠ '-' ∧ mark ≠ '?' ∧ mark ≠ ':') : (c == mark) = false := by
    apply beq_eq_false_iff_ne.mpr
    intro equal
    subst equal
    rcases startsPlain_cases starts with ordinary | ⟨_, dash | ⟨_, question | colon⟩⟩
    · exact absurd (ordinary.symm.trans indicator) (by decide)
    · exact free.1 dash
    · exact free.2.1 question
    · exact free.2.2 colon
  have dash : (c == '-' && atGap rest) = false := by
    rcases startsPlain_cases starts with ordinary | ⟨gap, _⟩
    · have different : c ≠ '-' := by
        intro equal
        subst equal
        exact absurd ordinary (by decide)
      simp [different]
    · simp [gap]
  have mark (d : Char) (indicator : isIndicator d = true) (special : d = '?' ∨ d = ':') :
      (c == d && (s.inFlow || atGap rest)) = false := by
    rcases startsPlain_cases starts with ordinary | ⟨gap, isDash | ⟨block, _⟩⟩
    · have different : c ≠ d := by
        intro equal
        subst equal
        exact absurd (ordinary.symm.trans indicator) (by decide)
      simp [different]
    · have different : c ≠ d := by
        intro equal
        subst equal
        rcases special with rfl | rfl <;> exact absurd isDash (by decide)
      simp [different]
    · simp [gap, block]
  simp only [fetch, margin '-', margin '.', other '%' (by decide) (by decide),
    other '[' (by decide) (by decide), other '\x7b' (by decide) (by decide),
    other ']' (by decide) (by decide), other '\x7d' (by decide) (by decide),
    other ',' (by decide) (by decide), dash, mark '?' (by decide) (.inl rfl),
    mark ':' (by decide) (.inr rfl), other '*' (by decide) (by decide),
    other '&' (by decide) (by decide), other '!' (by decide) (by decide),
    other '|' (by decide) (by decide), other '>' (by decide) (by decide),
    other '\x27' (by decide) (by decide), other '\x22' (by decide) (by decide), starts,
    Bool.false_and, Bool.false_eq_true, ↓reduceIte]

/-- Words that stand as keys: short ones of small letters and the low line. -/
structure IsKey (key : List Char) : Prop where
  filled : key ≠ []
  short : key.length ≤ 1024
  letters : ∀ c ∈ key, 'a' ≤ c ∧ c ≤ 'z' ∨ c = '_'

/-- What letters of keys are not. -/
structure IsLetter (c : Char) : Prop where
  ordinary : isBreak c = false
  noMark : c ≠ byteOrderMark
  noIndicator : isIndicator c = false
  notBlank : c ≠ ' '
  notTab : c ≠ '\t'
  notPoint : c ≠ '.'

theorem isLetter_of {c : Char} (letter : 'a' ≤ c ∧ c ≤ 'z' ∨ c = '_') : IsLetter c := by
  rcases letter with ⟨least, greatest⟩ | rfl
  · have low : 97 ≤ c.toNat := least
    have high : c.toNat ≤ 122 := greatest
    have different (d : Char) (outside : d.toNat < 97 ∨ 122 < d.toNat) : c ≠ d := by
      intro equal
      subst equal
      omega
    constructor
    · simp [isBreak, different]
    · exact different _ (by decide)
    · simp [isIndicator, different]
    · exact different _ (by decide)
    · exact different _ (by decide)
    · exact different _ (by decide)
  · constructor <;> decide

theorem IsLetter.inside {c : Char} (letter : IsLetter c) (flow : Bool) (rest : List Char) :
    Plain.ends flow c rest = false := by
  have colon : c ≠ ':' := by
    intro equal
    subst equal
    exact absurd letter.noIndicator (by decide)
  have question : c ≠ '?' := by
    intro equal
    subst equal
    exact absurd letter.noIndicator (by decide)
  have marks : Plain.isFlowMark c = false := by
    have indicator := letter.noIndicator
    simp only [isIndicator, List.contains_eq_mem, decide_eq_false_iff_not, List.mem_cons,
      not_or] at indicator
    simp [Plain.isFlowMark, indicator]
  simp [Plain.ends, letter.notBlank, letter.notTab, letter.ordinary, colon, question, marks]

theorem run_letters {flow : Bool} {word : List Char} (letters : ∀ c ∈ word, IsLetter c) :
    Plain.run flow word = (word, []) := by
  induction word with
  | nil => rfl
  | cons c rest ih =>
      have inside := (letters c List.mem_cons_self).inside flow rest
      rw [Plain.run_cons_inside inside, ih fun d member => letters d (List.mem_cons_of_mem _ member)]

theorem IsKey.line {key : List Char} (word : IsKey key) (flow : Bool) : Plain.Line flow key := by
  have letters : ∀ c ∈ key, IsLetter c := fun c member => isLetter_of (word.letters c member)
  refine .last ⟨word.filled, ?_, run_letters letters⟩
  intro comment
  have letter := letters '#' (List.mem_of_mem_head? comment)
  exact absurd letter.noIndicator (by decide)

theorem atGap_colon {rest : List Char} (gap : atGap rest = true) :
    Plain.stops false (':' :: rest) = true := by
  simp [Plain.stops, Plain.ends, gap]

def keyMarks (opened : Bool) : List Token := if opened then [.key, .blockMappingStart] else [.key]

theorem fetch_colon {s : Lexer} {rest : List Char} (gap : atGap rest = true) :
    s.fetch ':' rest = s.value rest := by
  simp [fetch, gap]

def behindWord (key rest : List Char) (index line column : Nat) (columns : List Nat)
    (required : Bool) (tokens : List Token) : Lexer :=
  ⟨⟨':' :: rest, index + key.length, line, column + key.length⟩, .scalar (.ofChars key) true :: tokens,
    some ⟨tokens.length, required, index, line, column⟩, [], columns, false⟩

def behindKey (key rest : List Char) (index line column : Nat) (columns : List Nat) (opened : Bool)
    (tokens : List Token) : Lexer :=
  block ⟨rest, index + key.length + 1, line, column + key.length + 1⟩
    (.value :: .scalar (.ofChars key) true :: (keyMarks opened ++ tokens))
    (if opened then column :: columns else columns) false

variable {key rest : List Char} {index line column : Nat} {columns : List Nat} {required opened : Bool}
  {tokens all : List Token}

theorem dropStale_behindWord (short : key.length ≤ 1024) :
    (behindWord key rest index line column columns required tokens).dropStale =
      .ok (behindWord key rest index line column columns required tokens) := by
  have fresh : ¬ index + 1024 < index + key.length := by omega
  simp only [behindWord, dropStale, refresh, isStale, bne_self_eq_false, fresh, decide_false,
    Bool.or_false, Bool.false_eq_true, ↓reduceIte]
  rfl

theorem value_behindWord
    (deep : (behindWord key rest index line column columns required tokens).isDeeper column = opened) :
    (behindWord key rest index line column columns required tokens).value rest =
      .ok (behindKey key rest index line column columns opened tokens) := by
  have recent : tokens.length + 1 - tokens.length = 1 := by omega
  have moved : Cursor.skipTo rest ⟨':' :: rest, index + key.length, line, column + key.length⟩ =
      ⟨rest, index + key.length + 1, line, column + key.length + 1⟩ :=
    Cursor.skipTo_next rest _ line _ (by decide) (by decide)
  simp only [behindWord] at deep ⊢
  simp only [value, insertKey, inFlow, List.isEmpty_nil, Bool.not_true, Bool.not_false,
    Bool.true_and, deep, List.length_cons, recent, allowKey, moveTo, emit, moved, keyMarks, behindKey]
  cases opened <;> rfl

theorem yields_colon (short : key.length ≤ 1024) (gap : atGap rest = true)
    (shallow : ∀ top ∈ columns.head?, top ≤ column)
    (deeper : ∀ s : Lexer, s.columns = columns → s.isDeeper column = opened)
    (further : Yields (behindKey key rest index line column columns opened tokens) all) :
    Yields (behindWord key rest index line column columns required tokens) all := by
  generalize same : behindWord key rest index line column columns required tokens = s
  have solid : Solid s.cursor.rest := by
    rw [← same]
    exact solid_cons (by decide) (by decide) (by decide) (by decide)
  have clean : s.dropStale = .ok s := by
    rw [← same]
    exact dropStale_behindWord short
  have kept : s.closeBlocks s.cursor.column = s := by
    apply closeBlocks_block _ s (congrArg Lexer.columns same.symm)
    intro top member
    rw [← same]
    exact Nat.le_trans (shallow top member) (Nat.le_add_right column key.length)
  have fetched : (s.closeBlocks s.cursor.column).fetch ':' rest =
      .ok (behindKey key rest index line column columns opened tokens) := by
    rw [kept, fetch_colon gap, ← same]
    exact value_behindWord (deeper _ rfl)
  apply yields_of_fetch ((congrArg dropStale (toToken_solid solid)).trans clean) _ fetched _ further
  · rw [kept, ← same]
    rfl
  · rw [← same]
    exact Nat.lt_succ_self _

theorem IsKey.solid {key : List Char} (word : IsKey key) (rest : List Char) : Solid (key ++ rest) := by
  obtain ⟨c, others, same⟩ := List.exists_cons_of_ne_nil word.filled
  have first := isLetter_of (word.letters c (same ▸ List.mem_cons_self))
  rw [same]
  refine solid_cons first.notBlank ?_ first.ordinary first.noMark
  intro equal
  subst equal
  exact absurd first.noIndicator (by decide)

theorem fetch_key {c : Char} {others : List Char} (word : IsKey key) (same : key = c :: others)
    (gap : atGap rest = true) :
    (block ⟨key ++ ':' :: rest, index, line, column⟩ tokens columns true).fetch c
        (others ++ ':' :: rest) =
      .ok (behindWord key rest index line column columns (columns.head? == some column) tokens) := by
  have letters : ∀ c ∈ key, IsLetter c := fun c member => isLetter_of (word.letters c member)
  have first := letters c (same ▸ List.mem_cons_self)
  have moved : Cursor.skipTo (':' :: rest) ⟨key ++ ':' :: rest, index, line, column⟩ =
      ⟨':' :: rest, index + key.length, line, column + key.length⟩ := by
    rw [Cursor.skipTo_append, Cursor.skip_of_ordinary]
    exact fun d member => ⟨(letters d member).ordinary, (letters d member).noMark⟩
  have starts : startsPlain false c (others ++ ':' :: rest) = true := by
    simp [startsPlain, first.notBlank, first.notTab, first.ordinary, first.noIndicator]
  have notDash : c ≠ '-' := by
    intro equal
    subst equal
    exact absurd first.noIndicator (by decide)
  have read := @Plain.read_line false
    (block ⟨key ++ ':' :: rest, index, line, column⟩ tokens columns true).margin key (':' :: rest)
    (word.line false) (atGap_colon gap) (Plain.closes_of_mark _ _ rest (by decide) (by decide))
  rw [Plain.gap_of_mark rest (by decide) (by decide)] at read
  rw [@fetch_plain (block _ _ _ _) c _ starts (.inr (atDivider_cons notDash first.notPoint _))]
  simp only [plainScalar, inFlow, List.isEmpty_nil, Bool.not_true, read]
  simp only [saveCandidate, forgetCandidate, ↓reduceIte, Except.map, allowKey, moveTo, emit, moved]
  rfl

/-- A key with its colon. The first key of a mapping is indented deeper than what is around it. -/
theorem reads_key (word : IsKey key) (gap : atGap rest = true)
    (shallow : ∀ top ∈ columns.head?, top ≤ column)
    (deeper : ∀ s : Lexer, s.columns = columns → s.isDeeper column = opened)
    (further : ∀ index line, Yields (behindKey key rest index line column columns opened tokens) all) :
    Reads columns column (key ++ ':' :: rest) tokens all := by
  intro index line
  obtain ⟨c, others, same⟩ := List.exists_cons_of_ne_nil word.filled
  have here : (block ⟨key ++ ':' :: rest, index, line, column⟩ tokens columns true).toToken =
      block ⟨key ++ ':' :: rest, index, line, column⟩ tokens columns true :=
    toToken_solid (word.solid _)
  have next : key ++ ':' :: rest = c :: (others ++ ':' :: rest) := by rw [same, List.cons_append]
  apply yields_of_block here shallow next (fetch_key word same gap)
  · have positive := List.length_pos_iff.mpr word.filled
    simp only [behindWord, List.length_append, List.length_cons]
    omega
  · exact yields_colon word.short gap shallow deeper (further _ line)

def entryMarks (opened : Bool) : List Token :=
  if opened then [.blockEntry, .blockSequenceStart] else [.blockEntry]

theorem fetch_dash {s : Lexer} {rest : List Char} (gap : atGap rest = true)
    (inside : s.cursor.column ≠ 0) :
    s.fetch '-' rest = s.blockMark .blockSequenceStart .blockEntry true rest := by
  simp [fetch, gap, inside]

theorem openBlock_block {cursor : Cursor} {tokens : List Token} {columns : List Nat}
    {keyAllowed opened : Bool} {column : Nat} (token : Token)
    (deep : (block cursor tokens columns keyAllowed).isDeeper column = opened) :
    (block cursor tokens columns keyAllowed).openBlock token column =
      block cursor (if opened then token :: tokens else tokens)
        (if opened then column :: columns else columns) keyAllowed := by
  cases opened <;> simp [openBlock, deep]

/-- The mark of an entry of a sequence. What stands behind it may open a block of its own. -/
theorem reads_entry {text : List Char} (solid : Solid text) (inside : column ≠ 0)
    (shallow : ∀ top ∈ columns.head?, top ≤ column)
    (deeper : ∀ s : Lexer, s.columns = columns → s.isDeeper column = opened)
    (further : Reads (if opened then column :: columns else columns) (column + 2) text
      (entryMarks opened ++ tokens) all) :
    Reads columns column ('-' :: ' ' :: text) tokens all := by
  intro index line
  let ready : Lexer := block ⟨'-' :: ' ' :: text, index, line, column⟩ tokens columns true
  let after : Lexer := block ⟨' ' :: text, index + 1, line, column + 1⟩ (entryMarks opened ++ tokens)
    (if opened then column :: columns else columns) true
  have here : ready.toToken = ready :=
    toToken_solid (solid_cons (by decide) (by decide) (by decide) (by decide))
  have moved : Cursor.skipTo (' ' :: text) ⟨'-' :: ' ' :: text, index, line, column⟩ =
      ⟨' ' :: text, index + 1, line, column + 1⟩ :=
    Cursor.skipTo_next _ index line column (by decide) (by decide)
  have fetched : ready.fetch '-' (' ' :: text) = .ok after := by
    have deep := deeper ready rfl
    have outside : ready.inFlow = false := rfl
    have allowed : ready.keyAllowed = true := rfl
    rw [fetch_dash rfl inside]
    simp only [blockMark, outside, allowed, Bool.not_false, Bool.not_true, Bool.and_false,
      Bool.false_eq_true, ↓reduceIte]
    rw [openBlock_block _ deep, forgetCandidate_block]
    simp only [Except.map, allowKey, moveTo, emit, moved, after]
    cases opened <;> rfl
  have behind : Yields after all := by
    have skipped : after.toToken = block ⟨text, index + 2, line, column + 2⟩
        (entryMarks opened ++ tokens) (if opened then column :: columns else columns) true :=
      @toToken_blanks after text _ _ _ 0 rfl solid
    exact further.yields solid skipped (Nat.le_succ _)
  exact yields_of_block here shallow rfl fetched (Nat.lt_succ_self _) behind

end Lexer

end Workflow.Yaml
