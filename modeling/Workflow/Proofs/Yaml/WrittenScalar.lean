import Workflow.Proofs.Yaml.BlockLine

/-! Scalars as they are written: plain or in quotes, behind a key, and between the brackets of a
flow sequence. -/

namespace Workflow.Yaml

namespace Lexer

/-- A text written as a plain scalar or in quotes; the flag tells whether it is plain. -/
inductive Written (flow : Bool) (value : List Char) : Bool → List Char → Prop where
  | plain {c : Char} {rest : List Char} (same : value = c :: rest) (noMark : c ≠ byteOrderMark)
      (starts : startsPlain flow c rest = true) (line : Plain.Line flow value) :
      Written flow value true value
  | quoted (kept : ∀ c ∈ value, isKept c = true) :
      Written flow value false (Text.quotedChars value)

variable {flow plain : Bool} {value text : List Char}

theorem Written.head (written : Written flow value plain text) :
    ∃ c rest, text = c :: rest ∧ Solid [c] := by
  cases written with
  | plain same noMark starts line =>
      obtain ⟨inside, noComment⟩ := inside_of_startsPlain starts
      obtain ⟨blank, _, ordinary⟩ := Plain.not_blank_of_inside inside
      exact ⟨_, _, same, solid_cons blank noComment ordinary noMark⟩
  | quoted kept =>
      exact ⟨'\x22', _, rfl, solid_cons (by decide) (by decide) (by decide) (by decide)⟩

theorem solid_of_head {c : Char} (solid : Solid [c]) (rest : List Char) : Solid (c :: rest) := by
  obtain ⟨blank, comment, ordinary, noMark⟩ := solid c [] rfl
  exact solid_cons blank comment ordinary noMark

theorem fetch_quote (s : Lexer) (rest : List Char) :
    s.fetch '\x22' rest = s.quotedScalar true rest := by
  simp [fetch]

def restBehind (plain : Bool) (tail : List Char) : List Char :=
  if plain then (Plain.gap tail).rest else tail

theorem length_restBehind_le (plain : Bool) (tail : List Char) :
    (restBehind plain tail).length ≤ tail.length := by
  cases plain with
  | false => exact Nat.le_refl _
  | true => exact Nat.le_trans (Nat.le_add_left _ _) (Plain.length_of_gap tail)

theorem fetch_written {s : Lexer} {c : Char} {rest tail : List Char}
    (written : Written s.inFlow value plain text) (here : s.cursor.rest = c :: rest)
    (whole : text ++ tail = c :: rest) (inside : s.cursor.column ≠ 0)
    (stop : Plain.stops s.inFlow tail = true)
    (close : Plain.closes s.inFlow s.margin tail = true) :
    s.fetch c rest = s.saveCandidate.map fun s =>
      ((s.allowKey (plain && (Plain.gap tail).broken)).moveTo (restBehind plain tail)).emit
        (.scalar (.ofChars value) plain) := by
  cases written with
  | @plain d others same noMark starts line =>
      rw [same, List.cons_append] at whole
      obtain ⟨rfl, rfl⟩ := List.cons.inj whole
      have begun := startsPlain_append starts tail
      have read := @Plain.read_line s.inFlow s.margin value tail line stop close
      have all : s.cursor.rest = value ++ tail := by rw [here, same, List.cons_append]
      rw [fetch_plain begun (.inl inside), plainScalar, all, read]
      rfl
  | quoted kept =>
      rw [Text.quotedChars_before] at whole
      obtain ⟨rfl, rfl⟩ := List.cons.inj whole
      simp only [fetch_quote, quotedScalar, Quoted.read_quoted kept tail, Except.map, keyPart]
      cases s.saveCandidate <;> rfl

theorem Follows.yields_behind {columns : List Nat} {tokens all : List Token}
    {before tail : List Char} (follows : Follows columns tokens all tail) {cursor : Cursor}
    (here : cursor.rest = before ++ tail) (plain : Bool) :
    Yields (block (cursor.skipTo (restBehind plain tail)) tokens columns
      (plain && (Plain.gap tail).broken)) all := by
  cases plain with
  | true => exact follows.yields_gap here
  | false =>
      have place := rest_skipTo here
      simp only [restBehind, Bool.false_eq_true, ↓reduceIte, Bool.false_and]
      generalize cursor.skipTo tail = moved at place
      obtain ⟨rest, index, line, column⟩ := moved
      obtain rfl := place
      exact follows.yields index line column false

theorem yields_written {top : Nat} {outer : List Nat} {tokens all : List Token} {tail : List Char}
    (written : Written false value plain text)
    (follows : Follows (top :: outer) (.scalar (.ofChars value) plain :: tokens) all tail)
    (index line : Nat) {column : Nat} (shallow : top ≤ column) :
    Yields (block ⟨' ' :: (text ++ tail), index, line, column⟩ tokens (top :: outer) false) all := by
  obtain ⟨c, rest, begun, first⟩ := written.head
  have whole : text ++ tail = c :: (rest ++ tail) := by rw [begun, List.cons_append]
  have solid : Solid (text ++ tail) := by
    rw [whole]
    exact solid_of_head first _
  let ready : Lexer := block ⟨text ++ tail, index + 1, line, column + 1⟩ tokens (top :: outer) false
  have here : (block ⟨' ' :: (text ++ tail), index, line, column⟩ tokens (top :: outer)
      false).toToken = ready := @toToken_blanks (block _ _ _ _) _ _ _ _ 0 rfl solid
  have within : ∀ outermost ∈ (top :: outer).head?, outermost ≤ column + 1 := by
    intro outermost same
    obtain rfl := Option.some.inj same
    exact Nat.le_succ_of_le shallow
  have fetched := @fetch_written plain value text ready c (rest ++ tail) tail written whole whole
    (Nat.succ_ne_zero column) follows.stops follows.closes
  apply yields_of_block here within whole fetched _ (follows.yields_behind rfl plain)
  have behind := length_restBehind_le plain tail
  calc
    (ready.cursor.skipTo (restBehind plain tail)).rest.length
        ≤ (restBehind plain tail).length := length_skipTo_le ready.cursor (restBehind plain tail)
    _ < (' ' :: (text ++ tail)).length := by
        rw [List.length_cons, List.length_append]
        omega

/-- A state between two tokens of a flow sequence that stands in a block as a value. -/
abbrev flowing (cursor : Cursor) (tokens : List Token) (candidate : Option Candidate)
    (columns : List Nat) (keyAllowed : Bool) : Lexer :=
  ⟨cursor, tokens, candidate, [none], columns, keyAllowed⟩

variable {cursor : Cursor} {tokens all : List Token} {candidate : Option Candidate}
  {columns : List Nat} {keyAllowed : Bool}

theorem forgetCandidate_flowing (optional : IsOptional candidate) :
    (flowing cursor tokens candidate columns keyAllowed).forgetCandidate =
      .ok (flowing cursor tokens none columns keyAllowed) :=
  @forgetCandidate_optional (flowing cursor tokens candidate columns keyAllowed) optional

theorem saveCandidate_flowing (optional : IsOptional candidate) :
    ∃ saved, IsOptional saved ∧ (flowing cursor tokens candidate columns keyAllowed).saveCandidate =
      .ok (flowing cursor tokens saved columns keyAllowed) := by
  cases keyAllowed with
  | false => exact ⟨candidate, optional, rfl⟩
  | true =>
      refine ⟨some ⟨tokens.length, false, cursor.index, cursor.line, cursor.column⟩, ?_, ?_⟩
      · intro place same
        obtain rfl := Option.some.inj same
        rfl
      · simp only [saveCandidate, ↓reduceIte, forgetCandidate_flowing optional, Except.map]
        rfl

/-- Inside of a flow sequence a text yields the same from any column on, the least one apart. -/
def FlowYields (columns : List Nat) (least : Nat) (text : List Char) (keyAllowed : Bool)
    (tokens all : List Token) : Prop :=
  ∀ index line column candidate, least ≤ column → IsOptional candidate →
    Yields (flowing ⟨text, index, line, column⟩ tokens candidate columns keyAllowed) all

theorem flowYields_of_fetch {c : Char} {rest : List Char} (solid : Solid (c :: rest))
    (least blanks : Nat)
    (further : ∀ index line column candidate, least + blanks ≤ column → IsOptional candidate →
      ∃ after, (flowing ⟨c :: rest, index, line, column⟩ tokens candidate columns keyAllowed).fetch
        c rest = .ok after ∧ after.cursor.rest.length ≤ rest.length ∧ Yields after all) :
    FlowYields columns least (List.replicate blanks ' ' ++ c :: rest) keyAllowed tokens all := by
  intro index line column candidate inside optional
  obtain ⟨moved, skipped⟩ : ∃ moved,
      (flowing ⟨List.replicate blanks ' ' ++ c :: rest, index, line, column⟩ tokens candidate
        columns keyAllowed).toToken =
      flowing ⟨c :: rest, moved, line, column + blanks⟩ tokens candidate columns keyAllowed := by
    cases blanks with
    | zero => exact ⟨index, toToken_solid solid⟩
    | succ blanks =>
        exact ⟨index + (blanks + 1), @toToken_blanks (flowing _ _ _ _ _) _ _ _ _ _ rfl solid⟩
  obtain ⟨fresh, stillOptional, clean⟩ := @dropStale_optional
    (flowing ⟨c :: rest, moved, line, column + blanks⟩ tokens candidate columns keyAllowed) optional rfl
  obtain ⟨after, fetched, shorter, yields⟩ :=
    further moved line (column + blanks) fresh (Nat.add_le_add_right inside blanks) stillOptional
  refine @yields_of_fetch _ _ after c rest all ((congrArg dropStale skipped).trans clean) rfl fetched
    ?_ yields
  simp only [List.length_append, List.length_cons]
  omega

theorem flowYields_comma {rest : List Char}
    (further : FlowYields columns 0 rest true (.flowEntry :: tokens) all) :
    FlowYields columns 0 (',' :: rest) keyAllowed tokens all := by
  apply flowYields_of_fetch (solid_cons (by decide) (by decide) (by decide) (by decide)) 0 0
  intro index line column candidate _ optional
  have moved := Cursor.skipTo_next rest index line column (c := ',') (by decide) (by decide)
  refine ⟨flowing ⟨rest, index + 1, line, column + 1⟩ (.flowEntry :: tokens) none columns true,
    ?_, Nat.le_refl _, further _ _ _ _ (Nat.zero_le _) isOptional_none⟩
  have fetched (s : Lexer) : s.fetch ',' rest = s.flowEntry rest := by simp [fetch]
  simp only [fetched, flowEntry, forgetCandidate_flowing optional, Except.map, allowKey, moveTo, emit,
    moved]

/-- The closing bracket, behind which the text goes on as after any value. -/
theorem flowYields_bracket {tail : List Char}
    (further : ∀ index line column,
      Yields (block ⟨tail, index, line, column⟩ (.flowSequenceEnd :: tokens) columns false) all) :
    FlowYields columns 0 (']' :: tail) keyAllowed tokens all := by
  apply flowYields_of_fetch (solid_cons (by decide) (by decide) (by decide) (by decide)) 0 0
  intro index line column candidate _ optional
  have moved := Cursor.skipTo_next tail index line column (c := ']') (by decide) (by decide)
  refine ⟨block ⟨tail, index + 1, line, column + 1⟩ (.flowSequenceEnd :: tokens) columns false, ?_,
    Nat.le_refl _, further _ _ _⟩
  have fetched (s : Lexer) : s.fetch ']' tail = s.closeFlow .flowSequenceEnd tail := by simp [fetch]
  simp only [fetched, closeFlow, forgetCandidate_flowing optional, allowKey, moveTo, emit, moved]

theorem flowYields_written {mark : Char} {tail : List Char} {least blanks : Nat}
    (written : Written true value plain text) (closing : mark = ',' ∨ mark = ']')
    (inside : 0 < least + blanks)
    (further : FlowYields columns 0 (mark :: tail) false (.scalar (.ofChars value) plain :: tokens) all) :
    FlowYields columns least (List.replicate blanks ' ' ++ (text ++ mark :: tail)) true tokens
      all := by
  obtain ⟨c, rest, begun, first⟩ := written.head
  have whole : text ++ mark :: tail = c :: (rest ++ mark :: tail) := by
    rw [begun, List.cons_append]
  have different : mark ≠ ' ' ∧ isBreak mark = false ∧ Plain.isFlowMark mark = true := by
    rcases closing with rfl | rfl <;> decide
  obtain ⟨blank, ordinary, flowMark⟩ := different
  have gap := Plain.gap_of_mark tail blank ordinary
  have behind : restBehind plain (mark :: tail) = mark :: tail := by
    cases plain with
    | false => rfl
    | true => simp only [restBehind, gap, ↓reduceIte]
  have stops : Plain.stops true (mark :: tail) = true := by
    simp [Plain.stops, Plain.ends, flowMark]
  rw [whole]
  apply flowYields_of_fetch (solid_of_head first _) least blanks
  intro index line column candidate deep optional
  rw [← whole]
  have farther : column ≠ 0 := by omega
  obtain ⟨saved, stillOptional, known⟩ := @saveCandidate_flowing
    ⟨text ++ mark :: tail, index, line, column⟩ tokens candidate columns true optional
  have fetched := @fetch_written plain value text
    (flowing ⟨text ++ mark :: tail, index, line, column⟩ tokens candidate columns true) c
    (rest ++ mark :: tail) (mark :: tail) written whole whole farther stops
    (Plain.closes_of_mark _ _ tail blank ordinary)
  rw [known, gap, behind, Bool.and_false] at fetched
  refine ⟨_, fetched, ?_, ?_⟩
  · apply Nat.le_trans (length_skipTo_le _ (mark :: tail))
    rw [List.length_append]
    exact Nat.le_add_left _ _
  · have place := @rest_skipTo ⟨text ++ mark :: tail, index, line, column⟩ text (mark :: tail) rfl
    simp only [emit, moveTo, allowKey]
    generalize Cursor.skipTo (mark :: tail) ⟨text ++ mark :: tail, index, line, column⟩ = moved at place
    obtain ⟨_, index, line, column⟩ := moved
    obtain rfl := place
    exact further index line column saved (Nat.zero_le _) stillOptional

variable {isPlain : List Char → Bool} {shape : List Char → List Char} {words : List (List Char)}

def furtherItems (shape : List Char → List Char) (words : List (List Char)) : List Char :=
  words.flatMap fun word => ',' :: ' ' :: shape word

def furtherTokens (isPlain : List Char → Bool) (words : List (List Char)) : List Token :=
  words.flatMap fun word => [.flowEntry, .scalar (.ofChars word) (isPlain word)]

def flowText (shape : List Char → List Char) : List (List Char) → List Char
  | [] => []
  | word :: rest => shape word ++ furtherItems shape rest

def flowTokens (isPlain : List Char → Bool) : List (List Char) → List Token
  | [] => []
  | word :: rest => .scalar (.ofChars word) (isPlain word) :: furtherTokens isPlain rest

theorem furtherItems_before (shape : List Char → List Char) (words : List (List Char))
    (tail : List Char) :
    ∃ mark rest, furtherItems shape words ++ ']' :: tail = mark :: rest ∧
      (mark = ',' ∨ mark = ']') := by
  cases words with
  | nil => exact ⟨']', tail, rfl, .inr rfl⟩
  | cons word others => exact ⟨',', _, rfl, .inl rfl⟩

theorem flowYields_further {tail : List Char}
    (each : ∀ word ∈ words, Written true word (isPlain word) (shape word))
    (further : ∀ index line column, Yields (block ⟨tail, index, line, column⟩
      (.flowSequenceEnd :: ((furtherTokens isPlain words).reverse ++ tokens)) columns false) all) :
    FlowYields columns 0 (furtherItems shape words ++ ']' :: tail) false tokens all := by
  induction words generalizing tokens with
  | nil => exact flowYields_bracket further
  | cons word rest ih =>
      have others : FlowYields columns 0 (furtherItems shape rest ++ ']' :: tail) false
          (.scalar (.ofChars word) (isPlain word) :: .flowEntry :: tokens) all := by
        refine ih (fun other member => each other (List.mem_cons_of_mem _ member)) ?_
        intro index line column
        have reached := further index line column
        simp only [furtherTokens, List.flatMap_cons, List.reverse_append, List.append_assoc] at reached
        exact reached
      obtain ⟨mark, more, same, closing⟩ := furtherItems_before shape rest tail
      rw [same] at others
      have item := @flowYields_written _ _ _ (.flowEntry :: tokens) _ _ mark more 0 1
        (each word List.mem_cons_self) closing (by decide) others
      rw [← same] at item
      have start := @flowYields_comma tokens all columns false _ item
      simp only [furtherItems, List.flatMap_cons, List.cons_append, List.append_assoc]
      exact start

theorem flowYields_items {tail : List Char}
    (each : ∀ word ∈ words, Written true word (isPlain word) (shape word))
    (further : ∀ index line column, Yields (block ⟨tail, index, line, column⟩
      (.flowSequenceEnd :: ((flowTokens isPlain words).reverse ++ tokens)) columns false) all) :
    FlowYields columns 1 (flowText shape words ++ ']' :: tail) true tokens all := by
  cases words with
  | nil =>
      intro index line column candidate _ optional
      exact flowYields_bracket further index line column candidate (Nat.zero_le _) optional
  | cons word rest =>
      have others : FlowYields columns 0 (furtherItems shape rest ++ ']' :: tail) false
          (.scalar (.ofChars word) (isPlain word) :: tokens) all := by
        refine flowYields_further (fun other member => each other (List.mem_cons_of_mem _ member)) ?_
        intro index line column
        have reached := further index line column
        rw [flowTokens, List.reverse_cons, List.append_assoc] at reached
        exact reached
      obtain ⟨mark, more, same, closing⟩ := furtherItems_before shape rest tail
      rw [same] at others
      have item := @flowYields_written _ _ _ tokens _ _ mark more 1 0
        (each word List.mem_cons_self) closing (by decide) others
      rw [← same] at item
      rw [flowText, List.append_assoc]
      exact item

theorem yields_flow {top : Nat} {outer : List Nat} {tail : List Char}
    (each : ∀ word ∈ words, Written true word (isPlain word) (shape word))
    (follows : Follows (top :: outer)
      (.flowSequenceEnd :: ((flowTokens isPlain words).reverse ++ .flowSequenceStart :: tokens)) all tail)
    (index line : Nat) {column : Nat} (shallow : top ≤ column) :
    Yields (block ⟨' ' :: '[' :: (flowText shape words ++ ']' :: tail), index, line, column⟩ tokens
      (top :: outer) false) all := by
  let ready : Lexer := block ⟨'[' :: (flowText shape words ++ ']' :: tail), index + 1, line,
    column + 1⟩ tokens (top :: outer) false
  let after : Lexer := flowing ⟨flowText shape words ++ ']' :: tail, index + 2, line, column + 2⟩
    (.flowSequenceStart :: tokens) none (top :: outer) true
  have here : (block ⟨' ' :: '[' :: (flowText shape words ++ ']' :: tail), index, line, column⟩
      tokens (top :: outer) false).toToken = ready :=
    @toToken_blanks (block _ _ _ _) _ _ _ _ 0 rfl
      (solid_cons (by decide) (by decide) (by decide) (by decide))
  have within : ∀ outermost ∈ (top :: outer).head?, outermost ≤ column + 1 := by
    intro outermost same
    obtain rfl := Option.some.inj same
    exact Nat.le_succ_of_le shallow
  have fetched : ready.fetch '[' (flowText shape words ++ ']' :: tail) = .ok after := by
    have opens (s : Lexer) (rest : List Char) :
        s.fetch '[' rest = s.openFlow .flowSequenceStart rest := by simp [fetch]
    have moved := Cursor.skipTo_next (flowText shape words ++ ']' :: tail) (index + 1) line
      (column + 1) (c := '[') (by decide) (by decide)
    have saved : ready.saveCandidate = .ok ready := rfl
    rw [opens, openFlow, saved]
    simp only [Except.map, allowKey, moveTo, emit, ready, moved, after]
  have items : FlowYields (top :: outer) 1 (flowText shape words ++ ']' :: tail) true
      (.flowSequenceStart :: tokens) all :=
    flowYields_items each fun index line column => follows.yields index line column false
  apply yields_of_block here within rfl fetched (Nat.lt_succ_of_lt (Nat.lt_succ_self _))
  exact items (index + 2) line (column + 2) none (Nat.le_add_left _ _) isOptional_none

end Lexer

end Workflow.Yaml
