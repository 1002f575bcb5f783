import Mathlib.Data.List.Basic
import Workflow.Proofs.Spec.Readable

/-! Scalars where a specification has them: between the brackets of a flow sequence, and behind a key
in an entry of a list. -/

namespace Workflow.Spec

open Yaml Yaml.Lexer

theorem load_of_block [Host] {fields : List Field} {room : Nat} (depth : room + 1 = Host.markupDepth)
    (block : IsBlock [0] room fields) :
    ∃ value collections, load (.ofChars (Field.lines 0 fields)) = .ok (value, collections) ∧
      (Tree.dict (fields.map Field.entry)).Means collections value := by
  have allowed : (Field.lines 0 fields).all isAllowed = true :=
    List.all_eq_true.mpr (block.allowed 0)
  have scanned := scan_of_lines block.filled (fun field member => (block.each field member).written)
    allowed
  exact load_of_scan (depth ▸ block.sound) (by simp) scanned

theorem entries_of_means {collections : Collections} {field : Field} {value : Value}
    (means : (Tree.dict [field.entry]).Means collections value) :
    ∃ root content, value = .dict root ∧
      collections.entriesOf root = [(.text (Text.ofChars field.key), content)] ∧
      field.value.Means collections content := by
  simp only [Field.entry, Tree.Means, Tree.FieldsMean] at means
  obtain ⟨root, rfl, content, _, same, inner, rfl⟩ := means
  exact ⟨root, content, rfl, same, inner⟩

theorem items_of_words {collections : Collections} {paths : List Text} {plain : Text → Bool}
    {values : List Value} (encodable : ∀ path ∈ paths, path.isEncodable = true)
    (means : Tree.ItemsMean collections (paths.map fun path => .text path.chars (plain path))
      values) : values = paths.map .text := by
  induction paths generalizing values with
  | nil => simpa [Tree.ItemsMean] using means
  | cons path rest ih =>
      rw [List.map_cons, Tree.ItemsMean] at means
      obtain ⟨value, others, rfl, first, further⟩ := means
      rw [Tree.Means, Text.ofChars_chars (encodable path List.mem_cons_self)] at first
      rw [List.map_cons, first, ih (fun other member => encodable other (List.mem_cons_of_mem _ member))
        further]

theorem Scalar.write_of_staysPlain [Host] {flow : Bool} {value : List Char}
    (plain : staysPlain flow value = true) : write flow (.ofChars value) = .ok (.ofChars value) := by
  rw [staysPlain] at plain
  rw [write]
  cases needed : needsQuotes flow (.ofChars value) with
  | error cause => simp [needed] at plain
  | ok quotes =>
      obtain rfl : quotes = false := by simpa [needed] using plain
      rfl

/-- Paths between brackets are read back, provided that quotes are around those with a question
mark. -/
theorem flow_sequence_read_back [Host] {paths written : List Text}
    (kept : ∀ path ∈ paths, path.all isKept = true)
    (quoted : ∀ path ∈ paths, '?' ∈ path.chars → Scalar.write true path ≠ .ok path)
    (known : paths.mapM (Scalar.write true) = .ok written) :
    ∃ root list collections,
      load ("paths: [" ++ Text.intercalate ", " written ++ "]") = .ok (.dict root, collections) ∧
      collections.entriesOf root = [(.text "paths", .list list)] ∧
      collections.itemsOf list = paths.map .text := by
  have encodable : ∀ path ∈ paths, path.isEncodable = true := fun path member =>
    Text.isEncodable_of_all (kept path member)
  have readable : ∀ path ∈ paths, Scalar.Readable true path.chars := by
    refine fun path member => ⟨Text.of_all (kept path member), fun _ plain question => ?_⟩
    have written := Scalar.write_of_staysPlain plain
    rw [Text.ofChars_chars (encodable path member)] at written
    exact quoted path member question written
  have lines : "paths: [" ++ Text.intercalate ", " written ++ "]" =
      .ofChars (Field.lines 0 [pathsField paths]) := by
    simp [Text.ext_iff, flowText_of_mapM encodable known, pathsField, Field.lines]
  obtain ⟨room, depth⟩ : ∃ room, Host.markupDepth = room + 2 :=
    Nat.exists_eq_add_of_le' (Nat.le_trans (by decide) Host.markup_room)
  obtain ⟨value, collections, loaded, means⟩ :=
    load_of_block depth.symm (isBlock_single (fits_paths readable))
  rw [← lines] at loaded
  obtain ⟨root, content, rfl, entries, inner⟩ := entries_of_means means
  rw [pathsField, Tree.Means] at inner
  obtain ⟨list, rfl, items⟩ := inner
  exact ⟨root, list, collections, loaded, entries, items_of_words encodable items⟩

section Usual

attribute [local instance] Host.usual

theorem flow_sequence_read_back_awkward :
    ∃ root list collections,
      load ("paths: [" ++ Text.intercalate ", "
        (["\x22a?, b\x22", "x y", "\x22\x22", "\x2212\x22"] : List Text) ++ "]") = .ok (.dict root, collections) ∧
      collections.entriesOf root = [(.text "paths", .list list)] ∧
      collections.itemsOf list = (["a?, b", "x y", "", "12"] : List Text).map .text :=
  flow_sequence_read_back (by decide +kernel) (by decide +kernel) (by decide +kernel)

/-- A question mark is taken for a mark of a key where no quotes are around it. -/
theorem bare_question_lost :
    ¬ ∀ paths written : List Text,
      (∀ path ∈ paths, path.all (fun c => isAllowed c && !isBreak c) = true) →
      paths.mapM (Scalar.write true) = .ok written →
      ∃ root list collections,
        load ("paths: [" ++ Text.intercalate ", " written ++ "]") =
          .ok (.dict root, collections) ∧
        collections.entriesOf root = [(.text "paths", .list list)] ∧
        collections.itemsOf list = paths.map .text := by
  intro all
  obtain ⟨_, _, _, loaded, _⟩ := all ["a?b"] ["a?b"] (by decide +kernel) (by decide +kernel)
  have broken : (load ("paths: [" ++ Text.intercalate ", " ["a?b"] ++ "]")).isOk = false := by
    decide +kernel
  rw [loaded] at broken
  exact absurd broken (by simp [Except.isOk, Except.toBool])

end Usual

theorem quotedChar_of_refused {c : Char} (refused : isAllowed c = false) (visible : 0x20 ≤ c.toNat) :
    Text.quotedChar .every c = [c] := by
  rcases Text.quotedChar_forms c with ⟨raw, _⟩ | ⟨letter, _, short⟩ | ⟨_, control⟩
  · exact raw
  · have each : ∀ escape ∈ Text.shortEscapes, isAllowed escape.2 = true ∨ escape.2.toNat < 0x20 := by
      decide
    rcases each (letter, c) short with allowed | control
    · exact absurd (refused.symm.trans allowed) (by decide)
    · exact absurd control (Nat.not_lt.mpr visible)
  · exact absurd control (Nat.not_lt.mpr visible)

/-- A name in an entry of a list is read back, and the entries behind it keep their meaning; but
a raw character that no text may hold leaves nothing to be read. -/
theorem block_scalar_read_back [Host] {name written : Text}
    (known : Scalar.write false name = .ok written) :
    (name.all isKept = true →
      ∀ items : List Item, (∀ item ∈ items, FitsItem (Host.markupDepth - 2) item) →
        ∃ root list entry others collections,
          load ("nodes:\n  - name: " ++ written ++ Text.ofChars (items.flatMap (Item.line 2))) =
            .ok (.dict root, collections) ∧
          collections.entriesOf root = [(.text "nodes", .list list)] ∧
          collections.itemsOf list = .dict entry :: others ∧
          collections.entriesOf entry = [(.text "name", .text name)] ∧
          Tree.ItemsMean collections (items.map Item.value) others) ∧
    ∀ c ∈ name.chars, isAllowed c = false → 0x20 ≤ c.toNat → ∀ rest,
      load ("nodes:\n  - name: " ++ written ++ rest) = .error .malformed := by
  constructor
  · intro kept items each
    obtain ⟨room, depth⟩ : ∃ room, Host.markupDepth = room + 3 :=
      Nat.exists_eq_add_of_le' (Nat.le_trans (by decide) Host.markup_room)
    have encodable := Text.isEncodable_of_all kept
    have shape := letters_of_write encodable known
    have readable : Scalar.Readable false name.chars :=
      ⟨Text.of_all kept, fun flow => absurd flow (by decide)⟩
    have whole : ∀ item ∈ nodeItem name :: items, FitsItem (room + 1) item := by
      intro item member
      rcases List.mem_cons.mp member with rfl | further
      · exact fitsItem_itemOf (isBlock_node readable)
      · have fits := each item further
        rwa [depth] at fits
    have fits := @fits_items (room + 1) "nodes" (by decide) _ whole
    have lines : "nodes:\n  - name: " ++ written ++ Text.ofChars (items.flatMap (Item.line 2)) =
        .ofChars (Field.lines 0 [sectionField "nodes" (nodeItem name :: items)]) := by
      simp [Text.ext_iff, shape, sectionField, nodeItem, scalarField, itemOf, Item.line, Field.lines]
    obtain ⟨value, collections, loaded, means⟩ := load_of_block depth.symm (isBlock_single fits)
    rw [← lines] at loaded
    obtain ⟨root, content, rfl, entries, inner⟩ := entries_of_means means
    rw [sectionField, List.isEmpty_cons, if_neg (by simp), Tree.Means] at inner
    obtain ⟨list, rfl, listed⟩ := inner
    rw [List.map_cons, Tree.ItemsMean] at listed
    obtain ⟨first, others, split, own, further⟩ := listed
    obtain ⟨entry, text, rfl, fields, named⟩ := entries_of_means own
    rw [scalarField, Tree.Means, Text.ofChars_chars encodable] at named
    rw [named] at fields
    exact ⟨root, list, entry, others, collections, loaded, entries, split, fields, further⟩
  · intro c member refused visible rest
    have inside : c ∈ written.chars := by
      obtain ⟨quotes, _, rfl⟩ := except_map_eq_ok known
      cases quotes with
      | false => exact member
      | true => exact Text.mem_quoted member (quotedChar_of_refused refused visible)
    exact load_of_refused (by simp [inside]) refused

section Usual

attribute [local instance] Host.usual

/-- A name that is no plain scalar and has a control character, before an entry that is an edge; and a
name with a character that is refused. -/
theorem block_scalar_read_back_awkward :
    (∃ root list entry others collections,
      load ("nodes:\n  - name: " ++ "\x22- x\\u0001\x22" ++
        Text.ofChars ([Entry.item (.branch "a" "yes" ["12", "b c"])].flatMap (Item.line 2))) =
        .ok (.dict root, collections) ∧
      collections.entriesOf root = [(.text "nodes", .list list)] ∧
      collections.itemsOf list = .dict entry :: others ∧
      collections.entriesOf entry = [(.text "name", .text "- x\x01")] ∧
      Tree.ItemsMean collections ([Entry.item (.branch "a" "yes" ["12", "b c"])].map Item.value)
        others) ∧
    load ("nodes:\n  - name: " ++ "\x22a\x7f\x22" ++ "\n  - name: b") = .error .malformed := by
  have known : Scalar.write false "- x\x01" = .ok "\x22- x\\u0001\x22" := by decide +kernel
  have refused : Scalar.write false "a\x7f" = .ok "\x22a\x7f\x22" := by decide +kernel
  have readable : (Entry.branch "a" "yes" ["12", "b c"]).IsReadable :=
    ⟨by decide +kernel, by decide +kernel⟩
  constructor
  · refine (block_scalar_read_back known).1 (by decide +kernel) _ ?_
    intro item member
    obtain rfl := List.mem_singleton.mp member
    exact fitsItem_itemOf (isBlock_entry readable)
  · exact (block_scalar_read_back refused).2 '\x7f' (by decide) (by decide) (by decide) _

/-- Behind the line separator a name goes on at the margin of the text. -/
theorem separated_name_lost :
    ¬ ∀ name written, Scalar.write false name = .ok written →
      ∃ root list entry others collections,
        load ("nodes:\n  - name: " ++ written ++ "\n  - name: c") = .ok (.dict root, collections) ∧
        collections.entriesOf root = [(.text "nodes", .list list)] ∧
        collections.itemsOf list = .dict entry :: others ∧
        collections.entriesOf entry = [(.text "name", .text name)] := by
  intro all
  have known : Scalar.write false "a\u2028b" = .ok "a\u2028b" := by decide +kernel
  obtain ⟨_, _, _, _, _, loaded, _⟩ := all _ _ known
  have broken : (load ("nodes:\n  - name: " ++ "a\u2028b" ++ "\n  - name: c")).isOk = false := by
    decide +kernel
  rw [loaded] at broken
  exact absurd broken (by simp [Except.isOk, Except.toBool])

end Usual

end Workflow.Spec
