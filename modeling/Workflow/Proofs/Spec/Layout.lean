import Workflow.Proofs.Spec.ScalarText
import Workflow.Proofs.Yaml.BlockLayout
import Workflow.Spec.Document

/-! A specification as a tree, and its text as the lines of this tree. -/

namespace Workflow.Spec

open Yaml Yaml.Lexer

namespace Entry

def texts : Entry → List Text
  | .direct source target => [source, target]
  | .branch source condition paths => source :: condition :: paths

end Entry

/-- The texts that a user chose. -/
def Document.texts (document : Document) : List Text :=
  document.config.entries.map Prod.snd ++ document.nodes ++ document.edges.flatMap Entry.texts

section Texts

variable {document : Document} {text : Text}

theorem Document.mem_texts_of_field {field : Text × Text} (member : field ∈ document.config.entries) :
    field.2 ∈ document.texts :=
  List.mem_append_left _ (List.mem_append_left _ (List.mem_map.mpr ⟨field, member, rfl⟩))

theorem Document.mem_texts_of_node (member : text ∈ document.nodes) : text ∈ document.texts :=
  List.mem_append_left _ (List.mem_append_right _ member)

theorem Document.mem_texts_of_entry {entry : Entry} (member : entry ∈ document.edges)
    (inside : text ∈ entry.texts) : text ∈ document.texts :=
  List.mem_append_right _ (List.mem_flatMap.mpr ⟨entry, member, inside⟩)

end Texts

theorem map_of_mapM {ε α β γ : Type} {f : α → Except ε β} {read : β → γ} {made : α → γ}
    {items : List α} (each : ∀ item ∈ items, ∀ result, f item = .ok result → read result = made item)
    {results : List β} (found : items.mapM f = .ok results) :
    results.map read = items.map made := by
  induction items generalizing results with
  | nil =>
      obtain rfl := Except.ok.inj found
      rfl
  | cons item rest ih =>
      rw [List.mapM_cons] at found
      obtain ⟨result, first, found⟩ := except_bind_eq_ok found
      obtain ⟨more, others, found⟩ := except_bind_eq_ok found
      obtain rfl := Except.ok.inj found
      rw [List.map_cons, List.map_cons, each item List.mem_cons_self result first,
        ih (fun item member => each item (List.mem_cons_of_mem _ member)) others]

theorem intercalate_cons_flatMap {α : Type} (separator first : List α) (rest : List (List α)) :
    separator.intercalate (first :: rest) = first ++ rest.flatMap (separator ++ ·) := by
  induction rest generalizing first with
  | nil => simp
  | cons second others ih =>
      rw [List.intercalate_cons_cons, ih, List.flatMap_cons, List.append_assoc, List.append_assoc]

def broken (lines : List Text) : List Letter := lines.flatMap fun line => .char '\n' :: line.letters

theorem broken_append (first second : List Text) :
    broken (first ++ second) = broken first ++ broken second :=
  List.flatMap_append

theorem broken_flatten (parts : List (List Text)) :
    broken parts.flatten = (parts.map broken).flatten := by
  induction parts with
  | nil => rfl
  | cons part rest ih => rw [List.flatten_cons, broken_append, ih, List.map_cons, List.flatten_cons]

/-- Characters that a reader accepts inside of a line. -/
def isQuiet (c : Char) : Bool := !isBreak c && isAllowed c

/-- A line of the header: empty, or a comment. -/
structure IsHeaderLine (line : Text) : Prop where
  quiet : line.all isQuiet = true
  begun : line.chars = [] ∨ line.chars.head? = some '#'

theorem IsHeaderLine.remark {line : Text} (known : IsHeaderLine line) : IsRemark line.chars := by
  obtain ⟨quiet, begun⟩ := known
  replace quiet := Text.of_all quiet
  cases same : line.chars with
  | nil => exact .inl rfl
  | cons c rest =>
      rw [same] at quiet begun
      have mark : c = '#' := by simpa using begun
      refine .inr ⟨rest, by rw [mark], fun d member => ?_⟩
      have known := quiet d (List.mem_cons_of_mem _ member)
      simp only [isQuiet, Bool.and_eq_true, Bool.not_eq_true'] at known
      exact known.1

theorem IsHeaderLine.allowed {line : Text} (known : IsHeaderLine line) {c : Char}
    (member : c ∈ line.chars) : isAllowed c = true := by
  have quiet := Text.of_all known.quiet c member
  rw [isQuiet, Bool.and_eq_true] at quiet
  exact quiet.2

-- A literal is taken apart by unification: decoding its bytes in a check would be slow.
theorem IsHeaderLine.ofList {chars : List Char}
    (quiet : chars.all isQuiet = true)
    (begun : chars = [] ∨ chars.head? = some '#') : IsHeaderLine (Text.ofChars chars) := by
  constructor
  · rwa [Text.all_ofChars]
  · rwa [Text.chars_ofChars]

theorem IsHeaderLine.naming {chars : List Char} {ending : Text}
    (quiet : chars.all isQuiet = true)
    (begun : chars.head? = some '#')
    (calm : ending.all isQuiet = true) :
    IsHeaderLine (Text.ofChars chars ++ ending ++ ".") := by
  constructor
  · rw [Text.all_append, Text.all_append, Text.all_ofChars, quiet, calm]
    decide +kernel
  · rw [Text.chars_append, Text.chars_append, Text.chars_ofChars, List.head?_append,
      List.head?_append, begun]
    exact .inr rfl

theorem isHeaderLine_of_mem {word line : Text}
    (member : line ∈ Document.header (Language.extension word)) : IsHeaderLine line := by
  have ending : (Language.extension word).all isQuiet = true := by
    rw [Language.extension]
    split <;> decide +kernel
  have mark : IsHeaderLine "#" := .ofList (by decide +kernel) (by decide)
  revert line member
  simp only [Document.header, List.forall_mem_cons, List.not_mem_nil, false_imp_iff, implies_true,
    and_true]
  exact ⟨.ofList (by decide +kernel) (.inr rfl), .ofList (by decide +kernel) (.inr rfl), mark,
    .ofList (by decide +kernel) (.inr rfl), .ofList (by decide +kernel) (.inr rfl), mark,
    .ofList (by decide +kernel) (.inr rfl), mark,
    .naming (by decide +kernel) rfl ending, mark,
    .naming (by decide +kernel) rfl ending, .ofList (by decide +kernel) (.inl rfl)⟩

def remarks (language : Text) : List (List Char) :=
  (Document.header (Language.extension language)).map Text.chars

theorem remarks_checked (language : Text) :
    ∀ line ∈ remarks language, IsRemark line ∧ ∀ c ∈ line, isAllowed c = true := by
  intro line member
  obtain ⟨text, inside, rfl⟩ := List.mem_map.mp member
  have known := isHeaderLine_of_mem inside
  exact ⟨known.remark, fun _ => known.allowed⟩

theorem letters_of_header (language : Text) :
    (Document.header (Language.extension language)).map Text.letters =
      (remarks language).map (List.map .char) := by
  rw [remarks, List.map_map]
  refine List.map_congr_left fun line member => ?_
  have encodable := Text.isEncodable_of_all (isHeaderLine_of_mem member).quiet
  exact (congrArg Text.letters (Text.ofChars_chars encodable)).symm

theorem breaks_shift (first : List Char) (rest : List (List Char)) (tail : List Char) :
    first ++ rest.flatMap ('\n' :: ·) ++ '\n' :: tail =
      (first :: rest).flatMap (· ++ ['\n']) ++ tail := by
  induction rest generalizing first with
  | nil => simp
  | cons second others ih =>
      have further := ih second
      simp only [List.flatMap_cons, List.append_assoc, List.cons_append, List.nil_append] at further ⊢
      rw [further]

variable [Host]

def scalarField (key value : Text) : Field :=
  ⟨key.chars, ' ' :: Scalar.shape false value.chars,
    .text value.chars (Scalar.staysPlain false value.chars)⟩

def pathsField (paths : List Text) : Field :=
  ⟨("paths" : Text).chars, ' ' :: '[' :: (flowText (Scalar.shape true) (paths.map Text.chars) ++ [']']),
    .list true (paths.map fun path => .text path.chars (Scalar.staysPlain true path.chars))⟩

def itemOf (fields : List Field) : Item := ⟨Field.lines 4 fields, .dict (fields.map Field.entry)⟩

def sectionField (key : Text) (items : List Item) : Field :=
  ⟨key.chars, items.flatMap (Item.line 2),
    if items.isEmpty then .null else .list false (items.map Item.value)⟩

def nodeItem (name : Text) : Item := itemOf [scalarField "name" name]

namespace Entry

def fields : Entry → List Field
  | .direct source target => [scalarField "from" source, scalarField "to" target]
  | .branch source condition paths =>
    [scalarField "from" source, scalarField "condition" condition, pathsField paths]

def item (entry : Entry) : Item := itemOf entry.fields

end Entry

namespace Document

def fields (document : Document) : List Field :=
  document.config.entries.map (fun field => scalarField field.1 field.2) ++
    [sectionField "nodes" (document.nodes.map nodeItem),
      sectionField "edges" (document.edges.map Entry.item)]

def tree (document : Document) : Tree := .dict (document.fields.map Field.entry)

end Document

theorem letters_of_write {flow : Bool} {value written : Text} (encodable : value.isEncodable = true)
    (known : Scalar.write flow value = .ok written) :
    written.letters = (Scalar.shape flow value.chars).map .char := by
  rw [← Text.ofChars_chars encodable] at known
  rw [Scalar.shape_of_write known, Text.letters_ofChars]

theorem broken_field {field : Text × Text} {line : Text} (named : field.1.isEncodable = true)
    (encodable : field.2.isEncodable = true) (written : Document.fieldLine field = .ok line) :
    .char '\n' :: line.letters = ((scalarField field.1 field.2).line 0).map .char := by
  obtain ⟨value, known, rfl⟩ := except_map_eq_ok written
  obtain ⟨key, text⟩ := field
  rw [← Text.ofChars_chars named]
  simp [scalarField, Field.line, letters_of_write encodable known]

theorem broken_node {name line : Text} (encodable : name.isEncodable = true)
    (written : Document.nodeLine name = .ok line) :
    .char '\n' :: line.letters = ((nodeItem name).line 2).map .char := by
  obtain ⟨value, known, rfl⟩ := except_map_eq_ok written
  simp [nodeItem, itemOf, scalarField, Item.line, Field.lines, letters_of_write encodable known]

theorem flowText_of_mapM {paths written : List Text}
    (encodable : ∀ path ∈ paths, path.isEncodable = true)
    (known : paths.mapM (Scalar.write true) = .ok written) :
    (Text.intercalate ", " written).letters =
      (flowText (Scalar.shape true) (paths.map Text.chars)).map .char := by
  have shapes := map_of_mapM (fun path member _ => letters_of_write (encodable path member)) known
  show (", " : Text).letters.intercalate (written.map Text.letters) = _
  rw [shapes]
  cases paths with
  | nil => rfl
  | cons path rest =>
      have separator : (", " : Text).letters = [.char ',', .char ' '] := rfl
      rw [List.map_cons, intercalate_cons_flatMap, List.map_cons, flowText, furtherItems,
        List.flatMap_map, List.flatMap_map, separator, List.map_append, List.map_flatMap]
      simp only [List.cons_append, List.nil_append, List.map_cons]

theorem broken_entry {entry : Entry} {lines : List Text}
    (encodable : ∀ text ∈ entry.texts, text.isEncodable = true) (written : entry.lines = .ok lines) :
    broken lines = (entry.item.line 2).map .char := by
  cases entry with
  | direct source target =>
      obtain ⟨first, known, written⟩ := except_bind_eq_ok written
      obtain ⟨second, other, written⟩ := except_bind_eq_ok written
      obtain rfl := Except.ok.inj written
      have left := letters_of_write (encodable source (by simp [Entry.texts])) known
      have right := letters_of_write (encodable target (by simp [Entry.texts])) other
      simp [broken, Entry.item, Entry.fields, itemOf, scalarField, Item.line, Field.lines, Field.line,
        left, right]
  | branch source condition paths =>
      obtain ⟨first, known, written⟩ := except_bind_eq_ok written
      obtain ⟨items, each, written⟩ := except_bind_eq_ok written
      obtain ⟨third, other, written⟩ := except_bind_eq_ok written
      obtain rfl := Except.ok.inj written
      have left := letters_of_write (encodable source (by simp [Entry.texts])) known
      have right := letters_of_write (encodable condition (by simp [Entry.texts])) other
      have middle := flowText_of_mapM
        (fun path member => encodable path (by simp [Entry.texts, member])) each
      simp [broken, Entry.item, Entry.fields, itemOf, scalarField, pathsField, Item.line, Field.lines,
        Field.line, left, right, middle]

theorem broken_body {document : Document} {lines : List Text}
    (encodable : ∀ text ∈ document.texts, text.isEncodable = true)
    (written : Document.body document.config.entries document.nodes document.edges = .ok lines) :
    broken lines = (document.fields.flatMap (Field.line 0)).map .char := by
  obtain ⟨fields, named, written⟩ := except_bind_eq_ok written
  obtain ⟨nodes, each, written⟩ := except_bind_eq_ok written
  obtain ⟨edges, every, written⟩ := except_bind_eq_ok written
  obtain rfl := Except.ok.inj written
  have keys : ∀ field ∈ document.config.entries, field.1.isEncodable = true := by
    simp [Config.entries]
  have first : broken fields = (document.config.entries.flatMap fun field =>
      (scalarField field.1 field.2).line 0).map .char := by
    rw [broken, List.flatMap_def, map_of_mapM (fun field member _ => broken_field (keys field member)
      (encodable _ (Document.mem_texts_of_field member))) named, ← List.flatMap_def, List.map_flatMap]
  have second : broken nodes =
      ((document.nodes.map nodeItem).flatMap (Item.line 2)).map .char := by
    rw [broken, List.flatMap_def, map_of_mapM (fun name member _ => broken_node
      (encodable name (Document.mem_texts_of_node member))) each, ← List.flatMap_def, List.flatMap_map,
      List.map_flatMap]
  have third : broken edges.flatten =
      ((document.edges.map Entry.item).flatMap (Item.line 2)).map .char := by
    rw [broken_flatten, map_of_mapM (fun entry member _ => broken_entry fun text inside =>
      encodable text (Document.mem_texts_of_entry member inside)) every, ← List.flatMap_def,
      List.flatMap_map, List.map_flatMap]
  have start (key : String) (lines : List Text) {items : List Item}
      (same : broken lines = (items.flatMap (Item.line 2)).map .char) :
      broken ((key ++ ":" : Text) :: lines) = ((sectionField key items).line 0).map .char := by
    rw [broken, List.flatMap_cons, ← broken, same]
    simp [sectionField, Field.line]
  have nodesSection := @start "nodes" nodes (document.nodes.map nodeItem) second
  have edgesSection := @start "edges" edges.flatten (document.edges.map Entry.item) third
  show broken (fields ++ ("nodes" ++ ":" : Text) :: nodes ++ ("edges" ++ ":" : Text) :: edges.flatten) = _
  rw [broken_append, broken_append, first, nodesSection, edgesSection, Document.fields,
    List.flatMap_append, List.flatMap_map]
  simp

/-- The text of a specification: the remarks of its header, and the lines of its tree. -/
theorem eq_of_text {document : Document} {language : Option Text} {text : Text}
    (encodable : ∀ text ∈ document.texts, text.isEncodable = true)
    (written : document.text language = .ok text) :
    text = .ofChars ((remarks (Document.headerWord document.config language)).flatMap (· ++ ['\n']) ++
      Field.lines 0 document.fields) := by
  obtain ⟨lines, body, rfl⟩ := except_map_eq_ok written
  have behind := broken_body encodable body
  obtain ⟨field, others, same⟩ : ∃ field others, document.fields = field :: others := ⟨_, _, rfl⟩
  have start : document.fields.flatMap (Field.line 0) = '\n' :: Field.lines 0 document.fields := by
    rw [same, List.flatMap_cons, Field.line, Field.lines]
    simp
  obtain ⟨first, rest, header⟩ : ∃ first rest,
      remarks (Document.headerWord document.config language) = first :: rest := ⟨_, _, rfl⟩
  have all : (Document.header (Language.extension (Document.headerWord document.config language)) ++
      lines).map Text.letters =
        first.map .char :: (rest.map (List.map .char) ++ lines.map Text.letters) := by
    rw [List.map_append, letters_of_header, header]
    rfl
  ext1
  calc
    _ = first.map .char ++
          (rest.map (List.map Letter.char) ++ lines.map Text.letters).flatMap (.char '\n' :: ·) := by
        show List.intercalate [.char '\n'] (List.map Text.letters _) = _
        rw [all, intercalate_cons_flatMap]
        rfl
    _ = (first ++ rest.flatMap ('\n' :: ·)).map .char ++ broken lines := by
        rw [List.flatMap_append, broken, List.flatMap_map, List.flatMap_map, List.map_append,
          List.map_flatMap, List.append_assoc]
        rfl
    _ = (first ++ rest.flatMap ('\n' :: ·) ++ '\n' :: Field.lines 0 document.fields).map .char := by
        rw [behind, start, ← List.map_append]
    _ = _ := by
        rw [breaks_shift, header]
        rfl

end Workflow.Spec
