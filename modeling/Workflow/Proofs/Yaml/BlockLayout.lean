import Workflow.Proofs.Yaml.Tree
import Workflow.Proofs.Yaml.WrittenScalar

/-! Trees laid out in lines: the fields of a dictionary one below the other, and the items of a list
behind marks. Whatever follows, they are lexed to the tokens of the tree. -/

namespace Workflow.Yaml

namespace Lexer

/-- A field of a dictionary with the text behind the colon of its key. -/
structure Field where
  key : List Char
  text : List Char
  value : Tree

namespace Field

def line (column : Nat) (field : Field) : List Char :=
  '\n' :: (List.replicate column ' ' ++ (field.key ++ ':' :: field.text))

def tokens (field : Field) : List Token :=
  .key :: .scalar (.ofChars field.key) true :: .value :: field.value.tokens

def entry (field : Field) : List Char × Tree := (field.key, field.value)

def lines (column : Nat) : List Field → List Char
  | [] => []
  | first :: rest => first.key ++ ':' :: (first.text ++ rest.flatMap (line column))

theorem tokensOfFields_entries (fields : List Field) :
    Tree.tokensOfFields (fields.map entry) = fields.flatMap tokens := by
  induction fields with
  | nil => rfl
  | cons field rest ih =>
      rw [List.map_cons, List.flatMap_cons, entry, Tree.tokensOfFields, ih]
      rfl

end Field

/-- An item of a list, from behind its mark on. -/
structure Item where
  text : List Char
  value : Tree

namespace Item

def line (column : Nat) (item : Item) : List Char :=
  '\n' :: (List.replicate column ' ' ++ '-' :: ' ' :: item.text)

end Item

variable {top column : Nat} {outer columns : List Nat} {text : List Char} {tokens : List Token}

theorem isDeeper_same (s : Lexer) (same : s.columns = column :: outer) :
    s.isDeeper column = false := by
  simp [isDeeper, same]

theorem isDeeper_inner (deep : ∀ top ∈ columns.head?, top < column) (s : Lexer)
    (same : s.columns = columns) : s.isDeeper column = true := by
  rw [isDeeper, same]
  cases columns with
  | nil => rfl
  | cons top others => exact decide_eq_true (deep top rfl)

theorem atDivider_indent (indent : Nat) (text : List Char) :
    atDivider (List.replicate (indent + 1) ' ' ++ text) = false :=
  atDivider_cons (by decide) (by decide) _

theorem IsKey.noDivider {key : List Char} (word : IsKey key) (indent : Nat) (rest : List Char) :
    atDivider (List.replicate indent ' ' ++ (key ++ rest)) = false := by
  cases indent with
  | succ indent => exact atDivider_indent indent _
  | zero =>
      obtain ⟨c, others, same⟩ := List.exists_cons_of_ne_nil word.filled
      have first := isLetter_of (word.letters c (same ▸ List.mem_cons_self))
      have notDash : c ≠ '-' := by
        intro equal
        subst equal
        exact absurd first.noIndicator (by decide)
      rw [same]
      exact atDivider_cons notDash first.notPoint _

theorem Follows.atGap {all : List Token} {tail : List Char}
    (follows : Follows columns tokens all tail) : atGap tail = true := by
  cases follows <;> rfl

theorem atGap_append {tail : List Char} (first : atGap text = true) (second : atGap tail = true) :
    atGap (text ++ tail) = true := by
  cases text with
  | nil => exact second
  | cons c rest => exact first

theorem follows_of_line {all : List Token} {indent : Nat} (filled : text ≠ []) (solid : Solid text)
    (noDivider : Yaml.atDivider (List.replicate indent ' ' ++ text) = false)
    (shallow : ∀ top ∈ columns.head?, indent ≤ top)
    (reads : Reads columns indent text tokens all) :
    Follows columns tokens all ('\n' :: (List.replicate indent ' ' ++ text)) := by
  obtain ⟨c, rest, rfl⟩ := List.exists_cons_of_ne_nil filled
  exact .line solid noDivider shallow reads

/-- A text behind the colon of a key, with the tokens of the value that it stands for. -/
structure IsValue (columns : List Nat) (text : List Char) (tokens : List Token) : Prop where
  gap : atGap text = true
  yields : ∀ tail before all, Follows columns (tokens.reverse ++ before) all tail →
    ∀ index line column, (∀ top ∈ columns.head?, top ≤ column) →
      Yields (block ⟨text ++ tail, index, line, column⟩ before columns false) all

theorem isValue_nil (columns : List Nat) : IsValue columns [] [] :=
  ⟨rfl, fun _ _ _ follows index line column _ => follows.yields index line column false⟩

theorem isValue_written {value : List Char} {plain : Bool}
    (written : Written false value plain text) :
    IsValue (top :: outer) (' ' :: text) [.scalar (.ofChars value) plain] :=
  ⟨rfl, fun _ _ _ follows index line _ shallow =>
    yields_written written follows index line (shallow top rfl)⟩

theorem isValue_flow {isPlain : List Char → Bool} {shape : List Char → List Char}
    {words : List (List Char)}
    (each : ∀ word ∈ words, Written true word (isPlain word) (shape word)) :
    IsValue (top :: outer) (' ' :: '[' :: (flowText shape words ++ [']']))
      (.flowSequenceStart :: (flowTokens isPlain words ++ [.flowSequenceEnd])) := by
  refine ⟨rfl, ?_⟩
  intro tail before all follows index line column shallow
  rw [List.reverse_cons, List.reverse_append, List.append_assoc, List.append_assoc] at follows
  have yields := @yields_flow before all isPlain shape words top outer tail each follows index line
    column (shallow top rfl)
  rw [List.cons_append, List.cons_append, List.append_assoc]
  exact yields

theorem tokensOfWords_further (isPlain : List Char → Bool) (words : List (List Char)) :
    Tree.tokensOfWords false (words.map fun word => .text word (isPlain word)) =
      furtherTokens isPlain words := by
  induction words with
  | nil => rfl
  | cons word rest ih =>
      rw [List.map_cons, Tree.tokensOfWords, ih]
      rfl

theorem tokens_flow (isPlain : List Char → Bool) (words : List (List Char)) :
    (Tree.list true (words.map fun word => .text word (isPlain word))).tokens =
      .flowSequenceStart :: (flowTokens isPlain words ++ [.flowSequenceEnd]) := by
  rw [Tree.tokens]
  cases words with
  | nil => rfl
  | cons word rest =>
      rw [List.map_cons, Tree.tokensOfWords, tokensOfWords_further]
      rfl

theorem reads_field {key : List Char} {opened : Bool} {before all : List Token} {tail : List Char}
    (word : IsKey key) (value : IsValue (column :: outer) text tokens)
    (inside : (if opened then column :: columns else columns) = column :: outer)
    (shallow : ∀ top ∈ columns.head?, top ≤ column)
    (deeper : ∀ s : Lexer, s.columns = columns → s.isDeeper column = opened)
    (follows : Follows (column :: outer)
      (tokens.reverse ++ (.value :: .scalar (.ofChars key) true :: (keyMarks opened ++ before))) all tail) :
    Reads columns column (key ++ ':' :: (text ++ tail)) before all := by
  apply reads_key word (atGap_append value.gap follows.atGap) shallow deeper
  intro index line
  rw [behindKey, inside]
  apply value.yields tail _ all follows _ line _
  intro innermost same
  obtain rfl := Option.some.inj same
  omega

namespace Field

structure IsWritten (columns : List Nat) (field : Field) : Prop where
  word : IsKey field.key
  value : IsValue columns field.text field.value.tokens

end Field

theorem lexesTo_field {field : Field} (written : field.IsWritten (column :: outer)) :
    LexesTo (column :: outer) (field.line column) field.tokens := by
  obtain ⟨word, value⟩ := written
  intro tail before all follows
  simp only [Field.tokens, List.reverse_cons, List.append_assoc, List.cons_append,
    List.nil_append] at follows
  have reads := @reads_field column outer (column :: outer) field.text field.value.tokens field.key
    false before all tail word value rfl (by simp) (fun s => isDeeper_same s) follows
  simp only [Field.line, List.cons_append, List.append_assoc]
  exact follows_of_line (by simp) (word.solid _) (word.noDivider column _) (by simp) reads

theorem solid_lines {fields : List Field} (filled : fields ≠ [])
    (written : ∀ field ∈ fields, field.IsWritten columns) : Solid (Field.lines column fields) := by
  obtain ⟨first, rest, rfl⟩ := List.exists_cons_of_ne_nil filled
  exact (written first List.mem_cons_self).word.solid _

theorem reads_fields {fields : List Field} {before all : List Token} {tail : List Char}
    (filled : fields ≠ []) (written : ∀ field ∈ fields, field.IsWritten (column :: outer))
    (deep : ∀ top ∈ outer.head?, top < column)
    (follows : Follows (column :: outer)
      ((Tree.tokensOfFields (fields.map Field.entry)).reverse ++ .blockMappingStart :: before) all
      tail) :
    Reads outer column (Field.lines column fields ++ tail) before all := by
  obtain ⟨first, rest, rfl⟩ := List.exists_cons_of_ne_nil filled
  obtain ⟨word, value⟩ := written first List.mem_cons_self
  have others : LexesTo (column :: outer) (rest.flatMap (Field.line column))
      (rest.flatMap Field.tokens) :=
    LexesTo.flatMap fun field member => lexesTo_field (written field (List.mem_cons_of_mem _ member))
  rw [Field.tokensOfFields_entries, List.flatMap_cons, List.reverse_append, List.append_assoc] at follows
  have reached := others tail _ all follows
  simp only [Field.tokens, List.reverse_cons, List.append_assoc, List.cons_append,
    List.nil_append] at reached
  have reads := @reads_field column outer outer first.text first.value.tokens first.key true before
    all _ word value rfl (fun top same => Nat.le_of_lt (deep top same)) (isDeeper_inner deep) reached
  rw [Field.lines, List.append_assoc, List.cons_append, List.append_assoc]
  exact reads

namespace Item

/-- What an item must be so that it is lexed in the block of its list. -/
structure IsWritten (column : Nat) (outer : List Nat) (item : Item) : Prop where
  solid : ∀ tail, Solid (item.text ++ tail)
  reads : ∀ tail before all, Follows (column :: outer) (item.value.tokens.reverse ++ before) all tail →
    Reads (column :: outer) (column + 2) (item.text ++ tail) before all

end Item

theorem isWritten_dict {fields : List Field} (filled : fields ≠ [])
    (written : ∀ field ∈ fields, field.IsWritten ((column + 2) :: column :: outer)) :
    Item.IsWritten column outer
      ⟨Field.lines (column + 2) fields, .dict (fields.map Field.entry)⟩ := by
  constructor
  · intro tail
    obtain ⟨first, rest, rfl⟩ := List.exists_cons_of_ne_nil filled
    have word := (written first List.mem_cons_self).word
    rw [Field.lines, List.append_assoc]
    exact word.solid _
  · intro tail before all follows
    refine reads_fields filled written (by simp) (Follows.close (by omega) ?_)
    simp only [Tree.tokens, List.reverse_cons, List.reverse_append, List.append_assoc,
      List.nil_append, List.cons_append, List.reverse_nil] at follows ⊢
    exact follows

theorem tokensOfItems_values (items : List Item) :
    Tree.tokensOfItems (items.map Item.value) =
      items.flatMap fun item => .blockEntry :: item.value.tokens := by
  induction items with
  | nil => rfl
  | cons item rest ih =>
      rw [List.map_cons, List.flatMap_cons, Tree.tokensOfItems, ih]
      rfl

theorem reads_item {item : Item} {opened : Bool} {before all : List Token} {tail : List Char}
    (written : item.IsWritten column outer) (inside : column ≠ 0)
    (same : (if opened then column :: columns else columns) = column :: outer)
    (shallow : ∀ top ∈ columns.head?, top ≤ column)
    (deeper : ∀ s : Lexer, s.columns = columns → s.isDeeper column = opened)
    (follows : Follows (column :: outer)
      (item.value.tokens.reverse ++ (entryMarks opened ++ before)) all tail) :
    Reads columns column ('-' :: ' ' :: (item.text ++ tail)) before all := by
  apply reads_entry (written.solid tail) inside shallow deeper
  rw [same]
  exact written.reads tail _ all follows

theorem lexesTo_item {item : Item} (written : item.IsWritten (column + 1) outer) :
    LexesTo ((column + 1) :: outer) (item.line (column + 1)) (.blockEntry :: item.value.tokens) := by
  intro tail before all follows
  simp only [List.reverse_cons, List.append_assoc, List.cons_append, List.nil_append] at follows
  have reads := @reads_item (column + 1) outer ((column + 1) :: outer) item false before all tail written
    (Nat.succ_ne_zero column) rfl (by simp) (fun s => isDeeper_same s) follows
  simp only [Item.line, List.cons_append, List.append_assoc]
  refine follows_of_line (by simp) ?_ (atDivider_indent column _) (by simp) reads
  exact solid_cons (by decide) (by decide) (by decide) (by decide)

theorem isValue_items {items : List Item} (filled : items ≠ []) (deep : top < column + 1)
    (written : ∀ item ∈ items, item.IsWritten (column + 1) (top :: outer)) :
    IsValue (top :: outer) (items.flatMap (Item.line (column + 1)))
      (Tree.list false (items.map Item.value)).tokens := by
  obtain ⟨first, rest, rfl⟩ := List.exists_cons_of_ne_nil filled
  refine ⟨rfl, ?_⟩
  intro tail before all follows index line start _
  have others : LexesTo ((column + 1) :: top :: outer) (rest.flatMap (Item.line (column + 1)))
      (rest.flatMap fun item => .blockEntry :: item.value.tokens) :=
    LexesTo.flatMap fun item member => lexesTo_item (written item (List.mem_cons_of_mem _ member))
  rw [Tree.tokens, tokensOfItems_values, List.flatMap_cons] at follows
  simp only [List.reverse_cons, List.reverse_append, List.append_assoc, List.cons_append,
    List.nil_append, List.reverse_nil] at follows
  have reached := others tail _ all (follows.close deep)
  have reads := @reads_item (column + 1) (top :: outer) (top :: outer) first true before all _
    (written first List.mem_cons_self) (Nat.succ_ne_zero column) rfl
    (by simpa using Nat.le_of_lt deep) (isDeeper_inner (by simpa using deep)) reached
  rw [List.flatMap_cons, List.append_assoc]
  simp only [Item.line, List.cons_append, List.append_assoc]
  exact yields_line (solid_cons (by decide) (by decide) (by decide) (by decide)) reads index line start
    false

/-- Nothing is read from such a line. -/
def IsRemark (line : List Char) : Prop :=
  line = [] ∨ ∃ comment, line = '#' :: comment ∧ ∀ c ∈ comment, isBreak c = false

theorem skipGaps_remarks {remarks : List (List Char)} {rest : List Char} {fuel : Nat}
    (each : ∀ line ∈ remarks, IsRemark line) (solid : Solid rest) (enough : remarks.length < fuel) :
    (skipGaps fuel (remarks.flatMap (· ++ ['\n']) ++ rest)).1 = rest := by
  induction remarks generalizing fuel with
  | nil =>
      obtain ⟨fuel, rfl⟩ : ∃ less, fuel = less + 1 := ⟨fuel - 1, by omega⟩
      exact congrArg Prod.fst (skipGaps_solid solid 0 fuel)
  | cons line others ih =>
      rw [List.length_cons] at enough
      obtain ⟨fuel, rfl⟩ : ∃ less, fuel = less + 1 := ⟨fuel - 1, by omega⟩
      have further := ih (fun other member => each other (List.mem_cons_of_mem _ member))
        (Nat.lt_of_succ_lt_succ enough)
      rw [List.flatMap_cons, List.append_assoc, List.append_assoc, List.singleton_append]
      rcases each line List.mem_cons_self with rfl | ⟨comment, rfl, oneLine⟩
      · rw [List.nil_append, skipGaps_newline]
        exact further
      · rw [List.cons_append, skipGaps_comment fuel _ oneLine]
        exact further

theorem skipGaps_broken {remarks : List (List Char)} {rest : List Char} {fuel : Nat}
    (given : remarks ≠ []) (each : ∀ line ∈ remarks, IsRemark line) :
    (skipGaps (fuel + 1) (remarks.flatMap (· ++ ['\n']) ++ rest)).2 = true := by
  obtain ⟨line, others, rfl⟩ := List.exists_cons_of_ne_nil given
  rw [List.flatMap_cons, List.append_assoc, List.append_assoc, List.singleton_append]
  rcases each line List.mem_cons_self with rfl | ⟨comment, rfl, oneLine⟩
  · rw [List.nil_append, skipGaps_newline]
  · rw [List.cons_append, skipGaps_comment fuel _ oneLine]

theorem length_le_remarks (remarks : List (List Char)) :
    remarks.length ≤ (remarks.flatMap (· ++ ['\n'])).length := by
  induction remarks with
  | nil => exact Nat.le_refl _
  | cons line others ih =>
      simp only [List.flatMap_cons, List.length_append, List.length_cons, List.length_nil]
      omega

theorem remarks_before {remarks : List (List Char)} (given : remarks ≠ []) :
    ∃ before, remarks.flatMap (· ++ ['\n']) = before ++ ['\n'] := by
  obtain ⟨first, last, rfl⟩ := (List.eq_nil_or_concat remarks).resolve_left given
  refine ⟨first.flatMap (· ++ ['\n']) ++ last, ?_⟩
  rw [List.concat_eq_append, List.flatMap_append, List.flatMap_singleton, List.append_assoc]

theorem start_of_remarks {remarks : List (List Char)} {body : List Char} (given : remarks ≠ [])
    (each : ∀ line ∈ remarks, IsRemark line) (solid : Solid body) :
    ∃ index line, (start (remarks.flatMap (· ++ ['\n']) ++ body)).toToken =
      block ⟨body, index, line, 0⟩ [] [] true := by
  generalize whole : remarks.flatMap (· ++ ['\n']) ++ body = text
  have noMark : text.head? ≠ some byteOrderMark := by
    obtain ⟨line, others, rfl⟩ := List.exists_cons_of_ne_nil given
    rw [← whole, List.flatMap_cons]
    rcases each line List.mem_cons_self with rfl | ⟨comment, rfl, _⟩
    · simp [byteOrderMark]
    · simp [byteOrderMark]
  have enough : remarks.length < text.length + 1 := by
    have long := length_le_remarks remarks
    rw [← whole, List.length_append]
    omega
  have skipped : skipGaps (text.length + 1) text = (body, true) := by
    have rest := skipGaps_remarks each solid enough
    have broken := @skipGaps_broken remarks body text.length given each
    rw [whole] at rest broken
    exact Prod.ext rest broken
  obtain ⟨before, last⟩ := remarks_before given
  have here : (Cursor.start text).rest = before ++ '\n' :: (List.replicate 0 ' ' ++ body) := by
    rw [← whole, last, List.append_assoc]
    rfl
  obtain ⟨index, line, moved⟩ := Cursor.skipTo_line before here
  refine ⟨index, line, ?_⟩
  have cursor : (start text).cursor = Cursor.start text := rfl
  have rest : (Cursor.start text).rest = text := rfl
  simp only [toToken, cursor, rest, beq_eq_false_iff_ne.mpr noMark, Bool.and_false,
    Bool.false_eq_true, ↓reduceIte, skipped, moveTo, moved]
  rfl

theorem scan_of_start {fields : List Field} {index line : Nat} (filled : fields ≠ [])
    (written : ∀ field ∈ fields, field.IsWritten [0])
    (started : (start text).toToken = block ⟨Field.lines 0 fields, index, line, 0⟩ [] [] true)
    (inside : (Field.lines 0 fields).length ≤ text.length) (allowed : text.all isAllowed = true) :
    Token.scan text = ⟨(Tree.dict (fields.map Field.entry)).tokens, none⟩ := by
  have reads : Reads [] 0 (Field.lines 0 fields) [] (Tree.dict (fields.map Field.entry)).tokens := by
    have follows : Follows [0] ((Tree.tokensOfFields (fields.map Field.entry)).reverse ++
        [.blockMappingStart]) (Tree.dict (fields.map Field.entry)).tokens [] := by
      refine .done ?_
      simp [Tree.tokens]
    have lexed := reads_fields filled written (by simp) follows
    rwa [List.append_nil] at lexed
  have yields : Yields (start text) (Tree.dict (fields.map Field.entry)).tokens :=
    reads.yields (solid_lines filled written) started inside
  rw [Token.scan, if_pos allowed]
  exact yields _ (Nat.lt_succ_self _)

theorem scan_of_fields {remarks : List (List Char)} {fields : List Field} (given : remarks ≠ [])
    (each : ∀ line ∈ remarks, IsRemark line) (filled : fields ≠ [])
    (written : ∀ field ∈ fields, field.IsWritten [0])
    (allowed : (remarks.flatMap (· ++ ['\n']) ++ Field.lines 0 fields).all isAllowed = true) :
    Token.scan (remarks.flatMap (· ++ ['\n']) ++ Field.lines 0 fields) =
      ⟨(Tree.dict (fields.map Field.entry)).tokens, none⟩ := by
  obtain ⟨index, line, started⟩ := start_of_remarks given each (solid_lines filled written)
  apply scan_of_start filled written started _ allowed
  rw [List.length_append]
  exact Nat.le_add_left _ _

/-- A dictionary and nothing else. -/
theorem scan_of_lines {fields : List Field} (filled : fields ≠ [])
    (written : ∀ field ∈ fields, field.IsWritten [0])
    (allowed : (Field.lines 0 fields).all isAllowed = true) :
    Token.scan (Field.lines 0 fields) = ⟨(Tree.dict (fields.map Field.entry)).tokens, none⟩ :=
  scan_of_start filled written (toToken_solid (solid_lines filled written)) (Nat.le_refl _) allowed

end Lexer

end Workflow.Yaml
