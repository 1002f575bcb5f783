import Workflow.Proofs.Spec.Layout
import Workflow.Proofs.Yaml.TreeMeaning

/-! Specifications whose text is read back: each field is lexed, read and understood as what it
stands for. -/

namespace Workflow.Spec

open Yaml Yaml.Lexer

namespace Entry

def paths : Entry → List Text
  | .direct _ _ => []
  | .branch _ _ paths => paths

end Entry

/-- Specifications that the format keeps: no naming field is empty, and the texts have no characters
but those that can stand between quotes. A question mark in a path would be read as a mark of its own. -/
structure Document.IsReadable (document : Document) : Prop where
  named : ∀ field ∈ document.config.entries, field.2 ≠ ""
  ordinary : ∀ text ∈ document.texts, text.all isOrdinary = true
  noQuestion : ∀ entry ∈ document.edges, ∀ path ∈ entry.paths, '?' ∉ path.chars

/-- Specifications whose texts the format keeps; an empty naming field may be among them. -/
structure Document.IsSpelled (document : Document) : Prop where
  ordinary : ∀ text ∈ document.texts, text.all isOrdinary = true
  noQuestion : ∀ entry ∈ document.edges, ∀ path ∈ entry.paths, '?' ∉ path.chars

theorem Document.IsReadable.spelled {document : Document} (readable : document.IsReadable) :
    document.IsSpelled :=
  ⟨readable.ordinary, readable.noQuestion⟩

def keyWords : List Text :=
  Config.keys ++ (["nodes", "edges", "from", "to", "condition", "paths"] : List Text)

theorem isKey_of_keyWords {key : Text} (member : key ∈ keyWords) : IsKey key.chars := by
  have checked : ∀ word ∈ keyWords, word.chars ≠ [] ∧ word.chars.length ≤ 1024 ∧
      word.chars.all (fun c => ('a' ≤ c && c ≤ 'z') || c == '_') = true := by
    decide +kernel
  obtain ⟨filled, short, letters⟩ := checked key member
  refine ⟨filled, short, fun c inside => ?_⟩
  simpa using List.all_eq_true.mp letters c inside

theorem noForm_of_keyWords {key : Text} (member : key ∈ keyWords) :
    Tag.ofPlain key.chars = .str := by
  have checked : ∀ word ∈ keyWords, Tag.ofPlain word.chars = .str := by decide +kernel
  exact checked key member

/-- A text that a reader accepts at all. -/
def Allowed (text : List Char) : Prop := ∀ c ∈ text, isAllowed c = true

theorem Allowed.append {first second : List Char} (left : Allowed first) (right : Allowed second) :
    Allowed (first ++ second) :=
  fun c member => (List.mem_append.mp member).elim (left c) (right c)

theorem Allowed.cons {c : Char} {rest : List Char} (first : isAllowed c = true)
    (others : Allowed rest) : Allowed (c :: rest) := by
  intro d member
  rcases List.mem_cons.mp member with rfl | later
  · exact first
  · exact others d later

theorem Allowed.flatMap {α : Type} {items : List α} {text : α → List Char}
    (each : ∀ item ∈ items, Allowed (text item)) : Allowed (items.flatMap text) := by
  intro c member
  obtain ⟨item, inside, within⟩ := List.mem_flatMap.mp member
  exact each item inside c within

theorem allowed_blanks (blanks : Nat) : Allowed (List.replicate blanks ' ') := by
  intro c member
  rw [List.eq_of_mem_replicate member]
  decide

/-- A field that is lexed, read and understood as what it stands for. -/
structure Fits (columns : List Nat) (room : Nat) (field : Field) : Prop where
  written : field.IsWritten columns
  noForm : Tag.ofPlain field.key = .str
  sound : field.value.Sound room
  allowed : Allowed field.text

/-- The fields of a dictionary, each of which fits. -/
structure IsBlock (columns : List Nat) (room : Nat) (fields : List Field) : Prop where
  filled : fields ≠ []
  distinct : (fields.map Field.key).Nodup
  each : ∀ field ∈ fields, Fits columns room field

variable {document : Document} {top room : Nat} {outer columns : List Nat} {fields : List Field}

theorem isBlock_single {field : Field} (fits : Fits columns room field) :
    IsBlock columns room [field] := by
  refine ⟨by simp, by simp, ?_⟩
  intro other member
  obtain rfl := List.mem_singleton.mp member
  exact fits

theorem IsBlock.sound (block : IsBlock columns room fields) :
    (Tree.dict (fields.map Field.entry)).Sound (room + 1) := by
  refine .dict ?_ ?_ ?_
  · rw [List.map_map]
    exact block.distinct
  · intro entry member
    obtain ⟨field, inside, rfl⟩ := List.mem_map.mp member
    exact (block.each field inside).noForm
  · intro entry member
    obtain ⟨field, inside, rfl⟩ := List.mem_map.mp member
    exact (block.each field inside).sound

theorem allowed_of_isKey {key : List Char} (word : IsKey key) : Allowed key := by
  intro c member
  rcases word.letters c member with ⟨least, greatest⟩ | rfl
  · have low : 97 ≤ c.toNat := least
    have high : c.toNat ≤ 122 := greatest
    simp only [isAllowed, Bool.or_eq_true, Bool.and_eq_true, decide_eq_true_eq, beq_iff_eq]
    omega
  · decide

theorem IsBlock.allowed (block : IsBlock columns room fields) (column : Nat) :
    Allowed (Field.lines column fields) := by
  have each : ∀ field ∈ fields, Allowed (field.key ++ ':' :: field.text) := fun field member =>
    (allowed_of_isKey (block.each field member).written.word).append
      (.cons (by decide) (block.each field member).allowed)
  obtain ⟨first, rest, rfl⟩ := List.exists_cons_of_ne_nil block.filled
  have start := each first List.mem_cons_self
  have others : Allowed (rest.flatMap (Field.line column)) := .flatMap fun field member =>
    .cons (by decide) ((allowed_blanks column).append (each field (List.mem_cons_of_mem _ member)))
  have whole := start.append others
  rwa [List.append_assoc, List.cons_append] at whole

/-- The texts of an edge can be read back. -/
structure Entry.IsReadable (entry : Entry) : Prop where
  ordinary : ∀ text ∈ entry.texts, text.all isOrdinary = true
  noQuestion : ∀ path ∈ entry.paths, '?' ∉ path.chars

/-- An item of a list that is lexed, read and understood as what it stands for. -/
structure FitsItem (room : Nat) (item : Item) : Prop where
  written : item.IsWritten 2 [0]
  sound : item.value.Sound room
  allowed : Allowed item.text

theorem fitsItem_itemOf {part : List Field} (block : IsBlock [4, 2, 0] room part) :
    FitsItem (room + 1) (itemOf part) where
  written := isWritten_dict block.filled fun field within => (block.each field within).written
  sound := block.sound
  allowed := block.allowed 4

theorem fits_items {key : Text} (word : key ∈ keyWords) {items : List Item}
    (each : ∀ item ∈ items, FitsItem room item) : Fits [0] (room + 1) (sectionField key items) where
  written := by
    refine ⟨isKey_of_keyWords word, ?_⟩
    cases items with
    | nil => exact isValue_nil [0]
    | cons first rest =>
        exact @isValue_items 0 1 [] _ (by simp) (by decide) fun item member =>
          (each item member).written
  noForm := noForm_of_keyWords word
  sound := by
    cases items with
    | nil => exact .null
    | cons first rest =>
        refine .lines ?_
        intro value member
        obtain ⟨item, inside, rfl⟩ := List.mem_map.mp member
        exact (each item inside).sound
  allowed := by
    refine .flatMap fun item member => ?_
    exact .cons (by decide) ((allowed_blanks 2).append (.cons (by decide) (.cons (by decide)
      (each item member).allowed)))

theorem fits_section {key : Text} (word : key ∈ keyWords) {parts : List (List Field)}
    (each : ∀ part ∈ parts, IsBlock [4, 2, 0] room part) :
    Fits [0] (room + 2) (sectionField key (parts.map itemOf)) := by
  refine fits_items word fun item member => ?_
  obtain ⟨part, inside, rfl⟩ := List.mem_map.mp member
  exact fitsItem_itemOf (each part inside)

variable [Host]

theorem allowed_shape {flow : Bool} {value : List Char} (readable : Scalar.Readable flow value) :
    Allowed (Scalar.shape flow value) := by
  cases plain : Scalar.staysPlain flow value with
  | true =>
      rw [Scalar.shape, plain, if_pos rfl]
      exact Scalar.allowed_of_staysPlain plain
  | false =>
      rw [Scalar.shape, plain, if_neg (by decide)]
      refine .cons (by decide) (.append (.flatMap ?_) (.cons (by decide) (by simp [Allowed])))
      intro c member
      rcases Quoted.quotedChar_cases (readable.kept c member) with
        ⟨raw, allowed, _⟩ | ⟨letters, escaped, allowed, _⟩
      · rw [raw]
        exact .cons allowed (by simp [Allowed])
      · rw [escaped]
        exact .cons (by decide) allowed

theorem fits_scalar {key value : Text} (word : key ∈ keyWords)
    (readable : Scalar.Readable false value.chars) : Fits (top :: outer) room (scalarField key value) where
  written := ⟨isKey_of_keyWords word, isValue_written (Scalar.written_of_readable readable)⟩
  noForm := noForm_of_keyWords word
  sound := .text (Scalar.scalarTag_of_readable readable)
  allowed := .cons (by decide) (allowed_shape readable)

theorem fits_paths {paths : List Text} (each : ∀ path ∈ paths, Scalar.Readable true path.chars) :
    Fits (top :: outer) (room + 1) (pathsField paths) where
  written := by
    have shapes : ∀ word ∈ paths.map Text.chars,
        Written true word (Scalar.staysPlain true word) (Scalar.shape true word) := by
      intro word member
      obtain ⟨path, inside, rfl⟩ := List.mem_map.mp member
      exact Scalar.written_of_readable (each path inside)
    have value := @isValue_flow top outer (Scalar.staysPlain true) (Scalar.shape true) _ shapes
    rw [← tokens_flow, List.map_map] at value
    exact ⟨isKey_of_keyWords (by decide), value⟩
  noForm := noForm_of_keyWords (by decide)
  sound := by
    refine .words ?_
    intro item member
    obtain ⟨path, inside, rfl⟩ := List.mem_map.mp member
    exact ⟨_, _, rfl, Scalar.scalarTag_of_readable (each path inside)⟩
  allowed := by
    have shapes : ∀ word ∈ paths.map Text.chars, Allowed (Scalar.shape true word) := by
      intro word member
      obtain ⟨path, inside, rfl⟩ := List.mem_map.mp member
      exact allowed_shape (each path inside)
    have items : Allowed (flowText (Scalar.shape true) (paths.map Text.chars)) := by
      generalize paths.map Text.chars = words at shapes
      cases words with
      | nil => simp [Allowed, flowText]
      | cons word rest =>
          refine (shapes word List.mem_cons_self).append (.flatMap fun other member => ?_)
          exact .cons (by decide) (.cons (by decide) (shapes other (List.mem_cons_of_mem _ member)))
    exact .cons (by decide) (.cons (by decide) (items.append (.cons (by decide) (by simp [Allowed]))))

theorem Entry.IsReadable.scalar {entry : Entry} (readable : entry.IsReadable) {text : Text}
    (member : text ∈ entry.texts) : Scalar.Readable false text.chars :=
  ⟨fun c inside => isKept_of_ordinary (Text.of_all (readable.ordinary text member) c inside),
    fun flow => absurd flow (by decide)⟩

theorem isBlock_entry {entry : Entry} (readable : entry.IsReadable) :
    IsBlock (top :: outer) (room + 1) entry.fields := by
  cases entry with
  | direct source target =>
      refine ⟨by simp [Entry.fields], by simp [Entry.fields, scalarField], ?_⟩
      intro field member
      rcases List.mem_cons.mp member with rfl | behind
      · exact fits_scalar (by decide) (readable.scalar (by simp [Entry.texts]))
      · obtain rfl := List.mem_singleton.mp behind
        exact fits_scalar (by decide) (readable.scalar (by simp [Entry.texts]))
  | branch source condition paths =>
      refine ⟨by simp [Entry.fields], by simp [Entry.fields, scalarField, pathsField], ?_⟩
      intro field member
      rcases List.mem_cons.mp member with rfl | behind
      · exact fits_scalar (by decide) (readable.scalar (by simp [Entry.texts]))
      · rcases List.mem_cons.mp behind with rfl | last
        · exact fits_scalar (by decide) (readable.scalar (by simp [Entry.texts]))
        · obtain rfl := List.mem_singleton.mp last
          refine fits_paths fun path inside => ⟨fun c within => ?_, fun _ _ =>
            readable.noQuestion path inside⟩
          exact isKept_of_ordinary
            (Text.of_all (readable.ordinary path (by simp [Entry.texts, inside])) c within)

theorem isBlock_node {name : Text} (readable : Scalar.Readable false name.chars) :
    IsBlock (top :: outer) room [scalarField "name" name] :=
  isBlock_single (fits_scalar (by decide) readable)

theorem isBlock_fields (spelled : document.IsSpelled) : IsBlock [0] (room + 4) document.fields where
  filled := by simp [Document.fields]
  distinct := by
    have keys : document.fields.map Field.key =
        (Config.keys ++ (["nodes", "edges"] : List Text)).map Text.chars := by
      simp [Document.fields, Config.entries, Config.keys, scalarField, sectionField]
    rw [keys]
    decide
  each := by
    have scalar {text : Text} (member : text ∈ document.texts) : Scalar.Readable false text.chars :=
      ⟨fun c inside => isKept_of_ordinary (Text.of_all (spelled.ordinary text member) c inside),
        fun flow => absurd flow (by decide)⟩
    intro field member
    rcases List.mem_append.mp member with named | lists
    · obtain ⟨entry, inside, rfl⟩ := List.mem_map.mp named
      have word : entry.1 ∈ keyWords := List.mem_append_left _ (List.mem_map.mpr ⟨entry, inside, rfl⟩)
      exact fits_scalar word (scalar (Document.mem_texts_of_field inside))
    · rcases List.mem_cons.mp lists with rfl | last
      · have parts : document.nodes.map nodeItem =
            (document.nodes.map fun name => [scalarField "name" name]).map itemOf := by
          rw [List.map_map]
          rfl
        rw [parts]
        refine fits_section (by decide) fun part inside => ?_
        obtain ⟨name, known, rfl⟩ := List.mem_map.mp inside
        exact isBlock_node (scalar (Document.mem_texts_of_node known))
      · obtain rfl := List.mem_singleton.mp last
        have parts : document.edges.map Entry.item = (document.edges.map Entry.fields).map itemOf := by
          rw [List.map_map]
          rfl
        rw [parts]
        refine fits_section (by decide) fun part inside => ?_
        obtain ⟨entry, known, rfl⟩ := List.mem_map.mp inside
        refine isBlock_entry ⟨fun text within => ?_, spelled.noQuestion entry known⟩
        exact spelled.ordinary text (Document.mem_texts_of_entry known within)

theorem load_of_spelled {language : Option Text} {text : Text} (spelled : document.IsSpelled)
    (written : document.text language = .ok text) :
    ∃ value collections, load text = .ok (value, collections) ∧
      document.tree.Means collections value := by
  obtain ⟨room, depth⟩ : ∃ room, Host.markupDepth = room + 5 :=
    Nat.exists_eq_add_of_le' (Nat.le_trans (by decide) Host.markup_room)
  have block : IsBlock [0] (room + 4) document.fields := isBlock_fields spelled
  have lines := eq_of_text (fun text member => Text.isEncodable_of_all (spelled.ordinary text member))
    written
  have header := remarks_checked (Document.headerWord document.config language)
  have given : remarks (Document.headerWord document.config language) ≠ [] := List.cons_ne_nil _ _
  generalize remarks (Document.headerWord document.config language) = above at lines header given
  have allowed : Allowed (above.flatMap (· ++ ['\n']) ++ Field.lines 0 document.fields) := by
    refine .append (.flatMap fun line member => ?_) (block.allowed 0)
    exact .append (header line member).2
      (.cons (by decide) (by simp [Allowed]))
  have scanned := scan_of_fields given (fun line member => (header line member).1) block.filled
    (fun field member => (block.each field member).written) (List.all_eq_true.mpr allowed)
  rw [lines]
  exact load_of_scan (depth ▸ block.sound) (by simp [Document.tree]) scanned

theorem load_of_text {language : Option Text} {text : Text} (readable : document.IsReadable)
    (written : document.text language = .ok text) :
    ∃ value collections, load text = .ok (value, collections) ∧
      document.tree.Means collections value :=
  load_of_spelled readable.spelled written

end Workflow.Spec
