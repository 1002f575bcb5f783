import Workflow.Json.Reader
import Workflow.Json.Writer
import Workflow.Proofs.Table
import Workflow.Proofs.Text.QuotedChar

/-! Tables of texts as stored records: a record that was written is read back as the table. -/

namespace Workflow

namespace Json

open Text (quotedLetter hexFixed)

theorem unit?_hexFixed {unit : Nat} (small : unit < 0x10000) (rest : List Letter) :
    unit? ((hexFixed 4 unit).map .char ++ rest) = some (unit, rest) := by
  have digit (value : Nat) : hexDigit? (.char (Text.hexDigit value)) = some (value % 16) :=
    Text.hexDigit?_hexDigit value
  simp only [Text.hexFixed_four, List.map_cons, List.map_nil, List.cons_append, List.nil_append, unit?,
    List.mapM_cons, List.mapM_nil, digit, Option.pure_def, Option.bind_eq_bind, Option.bind_some,
    Numeral.foldDigits, List.foldl_cons, List.foldl_nil, Option.some.injEq, Prod.mk.injEq, and_true]
  omega

theorem escapedUnit?_hexFixed {c : Char} (low : c.toNat < 0xd800) (rest : List Letter) :
    escapedUnit? ((hexFixed 4 c.toNat).map .char ++ rest) = some (.char c, rest) := by
  have single : Letter.ofCode c.toNat = .char c := by
    rw [Letter.ofCode, dif_neg (by omega), Char.ofNat_toNat]
  have unpaired (other : Nat) : Text.pairCode? c.toNat other = none := if_neg (by omega)
  rw [escapedUnit?, unit?_hexFixed (by omega)]
  dsimp only
  split
  · split
    · rw [unpaired]
      dsimp only
      rw [single]
    · rw [single]
  · rw [single]

theorem simpleEscape?_of_short {letter c : Char} (short : (letter, c) ∈ Text.shortEscapes) :
    letter ≠ 'u' ∧ simpleEscape? letter = some c := by
  have each : ∀ escape ∈ Text.shortEscapes,
      escape.1 ≠ 'u' ∧ simpleEscape? escape.1 = some escape.2 := by decide
  exact each (letter, c) short

theorem textBody_raw {letter : Letter} {rest : List Letter} {fuel : Nat}
    {found : List Letter × List Letter} (quote : letter ≠ .char '\x22')
    (backslash : letter ≠ .char '\\') (visible : 0x20 ≤ letter.code)
    (further : textBody fuel rest = .ok found) :
    textBody (fuel + 1) (letter :: rest) = .ok (letter :: found.1, found.2) := by
  have unbroken : ¬letter.code < 0x20 := by omega
  simp only [textBody, quote, backslash, unbroken, ↓reduceIte, further]
  rfl

theorem textBody_escape {mark c : Char} {rest : List Letter} {fuel : Nat}
    {found : List Letter × List Letter} (short : mark ≠ 'u') (known : simpleEscape? mark = some c)
    (further : textBody fuel rest = .ok found) :
    textBody (fuel + 1) (.char '\\' :: .char mark :: rest) = .ok (.char c :: found.1, found.2) := by
  have read : (Letter.char mark).char?.bind simpleEscape? = some c := known
  rw [textBody, if_neg (by decide), if_pos rfl, read, further]
  · rfl
  · simpa using short

theorem textBody_unit {c : Char} {rest : List Letter} {fuel : Nat}
    {found : List Letter × List Letter} (low : c.toNat < 0xd800)
    (further : textBody fuel rest = .ok found) :
    textBody (fuel + 1) (.char '\\' :: .char 'u' :: ((hexFixed 4 c.toNat).map .char ++ rest)) =
      .ok (.char c :: found.1, found.2) := by
  simp only [textBody, escapedUnit?_hexFixed low, further]
  rfl

theorem textBody_quoted {fuel : Nat} {letters : List Letter} (tail : List Letter)
    (enough : (letters.flatMap (quotedLetter .every)).length < fuel) :
    textBody fuel (letters.flatMap (quotedLetter .every) ++ .char '\x22' :: tail) =
      .ok (letters, tail) := by
  induction letters generalizing fuel with
  | nil =>
      obtain ⟨fuel, rfl⟩ := Nat.exists_eq_succ_of_ne_zero (Nat.ne_of_gt (Nat.zero_lt_of_lt enough))
      rfl
  | cons letter letters ih =>
      obtain ⟨fuel, rfl⟩ := Nat.exists_eq_succ_of_ne_zero (Nat.ne_of_gt (Nat.zero_lt_of_lt enough))
      rw [List.flatMap_cons, List.length_append] at enough
      rw [List.flatMap_cons, List.append_assoc]
      cases letter with
      | half unit =>
          have raw : quotedLetter .every (.half unit) = [.half unit] := rfl
          rw [raw] at enough ⊢
          rw [List.length_singleton] at enough
          exact textBody_raw (by simp) (by simp) (by simp [Letter.code]; omega) (ih (by omega))
      | char c =>
          rw [quotedLetter] at enough ⊢
          rcases Text.quotedChar_forms c with
            ⟨raw, visible, quote, backslash⟩ | ⟨mark, escaped, short⟩ | ⟨unit, control⟩
          · rw [raw] at enough ⊢
            simp only [List.length_map, List.length_singleton] at enough
            exact @textBody_raw (.char c) _ _ _ (by simpa using quote) (by simpa using backslash)
              visible (ih (by omega))
          · rw [escaped] at enough ⊢
            simp only [List.length_map, List.length_cons, List.length_nil] at enough
            obtain ⟨marks, known⟩ := simpleEscape?_of_short short
            exact textBody_escape marks known (ih (by omega))
          · rw [unit] at enough ⊢
            simp only [List.length_map, List.length_cons] at enough
            exact textBody_unit (by omega) (ih (by omega))

variable {room fuel : Nat} {key content : Text} {tail : List Letter}

theorem letters_quoted (text : Text) :
    (Text.quoted .every text).letters ++ tail =
      .char '\x22' :: (text.letters.flatMap (quotedLetter .every) ++ .char '\x22' :: tail) := by
  simp [Text.quoted]

theorem length_quoted (text : Text) :
    (Text.quoted .every text).letters.length =
      (text.letters.flatMap (quotedLetter .every)).length + 2 := by
  simp [Text.quoted]

theorem value_quoted (tail : List Letter)
    (enough : (Text.quoted .every content).letters.length ≤ fuel) :
    value room fuel ((Text.quoted .every content).letters ++ tail) = .ok (.text content, tail) := by
  rw [length_quoted] at enough
  obtain ⟨fuel, rfl⟩ : ∃ less, fuel = less + 1 := ⟨fuel - 1, by omega⟩
  have body := @textBody_quoted fuel content.letters tail (by omega)
  rw [letters_quoted, value, body]
  rfl

theorem value_object {rest letters : List Letter} {found : List (Text × Json) × List Letter}
    (start : skipGap rest = .char '\x22' :: letters)
    (read : members room fuel (.char '\x22' :: letters) = .ok found) :
    value (room + 1) (fuel + 1) (.char '\x7b' :: rest) =
      .ok (.object (Table.ofEntries found.1), found.2) := by
  simp only [value, start]
  exact congrArg (Except.map fun found => (object (Table.ofEntries found.1), found.2)) read

def membersBehind (room fuel : Nat) (first : Text × Json) (tail : List Letter) :
    Except ReadError (List (Text × Json) × List Letter) :=
  match skipGap tail with
  | .char ',' :: after =>
    (members room fuel (skipGap after)).map fun (others, end_) => (first :: others, end_)
  | .char '\x7d' :: after => .ok ([first], after)
  | _ => .error .malformed

theorem members_first (tail : List Letter)
    (enough : (Text.quoted .every key).letters.length ≤ fuel)
    (further : (Text.quoted .every content).letters.length ≤ fuel) :
    members room (fuel + 1) ((Text.quoted .every key).letters ++
        .char ':' :: ((Text.quoted .every content).letters ++ tail)) =
      membersBehind room fuel (key, .text content) tail := by
  have second := @value_quoted room fuel content tail further
  have quote : skipGap ((Text.quoted .every content).letters ++ tail) =
      (Text.quoted .every content).letters ++ tail := rfl
  generalize (Text.quoted .every content).letters ++ tail = behind at second quote
  rw [length_quoted] at enough
  have first := @textBody_quoted fuel key.letters (.char ':' :: behind) (by omega)
  have colon : skipGap (.char ':' :: behind) = .char ':' :: behind := rfl
  rw [letters_quoted]
  simp only [members, first, colon, quote, second]
  rfl

def textFields (table : Table Text) : List (Text × Json) :=
  table.map fun entry => (entry.1, .text entry.2)

theorem members_fields {table : Table Text} (filled : table ≠ []) (tail : List Letter)
    (enough : (writeFields .compact (textFields table)).letters.length < fuel) :
    members room fuel ((writeFields .compact (textFields table)).letters ++ .char '\x7d' :: tail) =
      .ok (textFields table, tail) := by
  induction table generalizing fuel with
  | nil => exact absurd rfl filled
  | cons entry rest ih =>
      obtain ⟨key, content⟩ := entry
      obtain ⟨fuel, rfl⟩ : ∃ less, fuel = less + 1 := ⟨fuel - 1, by omega⟩
      cases rest with
      | nil =>
          have written : (writeFields .compact (textFields [(key, content)])).letters =
              (Text.quoted .every key).letters ++ .char ':' ::
                (Text.quoted .every content).letters := List.append_assoc _ _ _
          rw [written] at enough ⊢
          simp only [List.length_append, List.length_cons] at enough
          rw [List.append_assoc, List.cons_append, members_first _ (by omega) (by omega)]
          rfl
      | cons entry others =>
          have written : (writeFields .compact (textFields ((key, content) :: entry :: others))).letters =
              (Text.quoted .every key).letters ++ .char ':' ::
                ((Text.quoted .every content).letters ++ .char ',' ::
                  (writeFields .compact (textFields (entry :: others))).letters) := by
            simp only [textFields, List.map_cons, writeFields, write, Text.letters_append,
              List.append_assoc]
            rfl
          have start (tail : List Letter) :
              skipGap ((writeFields .compact (textFields (entry :: others))).letters ++ tail) =
                (writeFields .compact (textFields (entry :: others))).letters ++ tail := by
            cases others <;> rfl
          rw [written] at enough ⊢
          simp only [List.length_append, List.length_cons] at enough
          simp only [List.append_assoc, List.cons_append]
          rw [members_first _ (by omega) (by omega)]
          have comma (first : Text × Json) (after : List Letter) :
              membersBehind room fuel first (.char ',' :: after) =
                (members room fuel (skipGap after)).map fun found => (first :: found.1, found.2) := rfl
          rw [comma, start, ih (List.cons_ne_nil _ _) (by omega)]
          rfl

theorem isEncodable_textTable {table : Table Text} :
    (textTable table).isEncodable = true ↔
      ∀ entry ∈ table, entry.1.isEncodable = true ∧ entry.2.isEncodable = true := by
  rw [textTable, isEncodable_object, List.forall_mem_map]
  rfl

theorem dumpedItems_eq (items : List Json) : dumpedItems items = items.map dumped := by
  induction items with
  | nil => rfl
  | cons item rest ih => rw [dumpedItems, ih, List.map_cons]

theorem dumped_textTable (table : Table Text) : (textTable table).dumped = textTable table := by
  rw [textTable, dumped]
  induction table with
  | nil => rfl
  | cons entry rest ih =>
      have others := Json.object.inj ih
      rw [List.map_cons, dumpedFields, others]
      simp [dumped]

/-- A record of texts under distinct keys is read back from how it was written. -/
theorem read_textTable [Host] {table : Table Text} (distinct : table.keys.Nodup) :
    read ((textTable table).write .compact) = .ok (textTable table) := by
  have same : Table.ofEntries (textFields table) = textFields table := by
    apply Table.ofEntries_of_nodup
    rw [Table.keys, textFields, List.map_map]
    exact distinct
  have written : ((textTable table).write .compact).letters =
      .char '\x7b' :: ((writeFields .compact (textFields table)).letters ++ [.char '\x7d']) := rfl
  have opening (rest : List Letter) : skipGap (.char '\x7b' :: rest) = .char '\x7b' :: rest := rfl
  obtain ⟨room, deep⟩ : ∃ room, Host.dataDepth = room + 1 :=
    ⟨Host.dataDepth - 1, by have := Host.data_room; omega⟩
  rw [read, written, opening, deep, List.length_cons]
  cases table with
  | nil => rfl
  | cons entry rest =>
      have body := @members_fields room
        ((writeFields .compact (textFields (entry :: rest))).letters ++ [Letter.char '\x7d']).length.succ
        (entry :: rest) (List.cons_ne_nil entry rest) [] (by simp only [List.length_append]; omega)
      have inside (tail : List Letter) :
          skipGap ((writeFields .compact (textFields (entry :: rest))).letters ++ tail) =
            (writeFields .compact (textFields (entry :: rest))).letters ++ tail := by
        cases rest <;> rfl
      obtain ⟨letters, head⟩ : ∃ letters,
          (writeFields .compact (textFields (entry :: rest))).letters = .char '\x22' :: letters := by
        cases rest <;> exact ⟨_, rfl⟩
      have start := inside [.char '\x7d']
      rw [head, List.cons_append] at body start ⊢
      rw [value_object start body]
      dsimp only
      rw [same]
      rfl

end Json

end Workflow
