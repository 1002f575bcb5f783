import Workflow.Proofs.Spec.Readable
import Workflow.Spec.Reading

/-! The text of a specification is read back as this specification. -/

namespace Workflow.Spec

open Yaml Yaml.Lexer

variable {collections : Collections} {fields : List (List Char × Tree)}
  {entries : List (Value × Value)}

theorem fieldOf?_of_mem (means : Tree.FieldsMean collections fields entries)
    (distinct : (fields.map Prod.fst).Nodup) {key : Text} (named : key.isEncodable = true) {tree : Tree}
    (member : (key.chars, tree) ∈ fields) :
    ∃ value, Value.fieldOf? key entries = some value ∧ tree.Means collections value := by
  induction fields generalizing entries with
  | nil => exact absurd member List.not_mem_nil
  | cons field rest ih =>
      obtain ⟨word, item⟩ := field
      rw [Tree.FieldsMean] at means
      obtain ⟨value, others, rfl, first, further⟩ := means
      obtain ⟨absent, distinct⟩ := List.nodup_cons.mp distinct
      rcases List.mem_cons.mp member with same | later
      · obtain ⟨rfl, rfl⟩ := Prod.mk.inj same
        exact ⟨value, by simp [Value.fieldOf?, Text.ofChars_chars named], first⟩
      · have different : Text.ofChars word ≠ key := by
          intro equal
          subst equal
          refine absent (List.mem_map.mpr ⟨_, later, ?_⟩)
          simp
        obtain ⟨found, here, read⟩ := ih further distinct later
        exact ⟨found, by simp [Value.fieldOf?, different, here], read⟩

theorem fieldOf?_of_absent (means : Tree.FieldsMean collections fields entries) {key : Text}
    (absent : key.chars ∉ fields.map Prod.fst) : Value.fieldOf? key entries = none := by
  induction fields generalizing entries with
  | nil =>
      rw [Tree.FieldsMean] at means
      rw [means]
      rfl
  | cons field rest ih =>
      obtain ⟨word, item⟩ := field
      rw [Tree.FieldsMean] at means
      obtain ⟨value, others, rfl, _, further⟩ := means
      have different : Text.ofChars word ≠ key := by
        intro equal
        subst equal
        exact absent (by simp)
      have none := ih further fun later => absent (List.mem_cons_of_mem _ later)
      simp [Value.fieldOf?, different, none]

theorem value_of_text {text : Text} {plain : Bool} {value : Value}
    (encodable : text.isEncodable = true)
    (means : (Tree.text text.chars plain).Means collections value) : value = .text text := by
  rw [Tree.Means, Text.ofChars_chars encodable] at means
  exact means

theorem listUnder_of_means {key : Text} {items : List Item} {value : Value}
    (found : Value.fieldOf? key entries = some value)
    (means : (sectionField key items).value.Means collections value) :
    ∃ values, Document.listUnder collections entries key = .ok values ∧
      Tree.ItemsMean collections (items.map Item.value) values := by
  cases items with
  | nil =>
      have null : value = .null := by simpa [sectionField, Tree.Means] using means
      refine ⟨[], ?_, by rw [List.map_nil, Tree.ItemsMean]⟩
      rw [Document.listUnder, found, null]
  | cons first rest =>
      rw [sectionField, List.isEmpty_cons, if_neg (by simp), Tree.Means] at means
      obtain ⟨id, rfl, further⟩ := means
      refine ⟨_, ?_, further⟩
      rw [Document.listUnder, found]

/-- The naming fields with standard ones in place of the empty ones. -/
def Config.filled (config : Config) : Config :=
  .ofEntries (config.entries.filter (·.2 != ("" : Text)))

theorem Config.filled_of_named {config : Config} (named : ∀ field ∈ config.entries, field.2 ≠ "") :
    config.filled = config := by
  have whole : config.entries.filter (·.2 != ("" : Text)) = config.entries :=
    List.filter_eq_self.mpr fun field member => bne_iff_ne.mpr (named field member)
  rw [filled, whole, ofEntries_entries]

section ReadBack

variable [Host]

theorem fieldOf?_of_scalar (means : Tree.FieldsMean collections fields entries)
    (distinct : (fields.map Prod.fst).Nodup) {key value : Text} (named : key.isEncodable = true)
    (encodable : value.isEncodable = true) (member : (scalarField key value).entry ∈ fields) :
    Value.fieldOf? key entries = some (.text value) := by
  obtain ⟨found, here, read⟩ := fieldOf?_of_mem means distinct named member
  rw [here, value_of_text encodable read]

theorem required_of_scalar {key value : Text}
    (found : Value.fieldOf? key entries = some (.text value)) :
    Parts.required collections key entries = .ok value := by
  rw [Parts.required, found]
  rfl

theorem node_of_means {name : Text} {value : Value} (encodable : name.isEncodable = true)
    (means : (nodeItem name).value.Means collections value) :
    Parts.node collections value = .ok name := by
  rw [nodeItem, itemOf, Tree.Means] at means
  obtain ⟨id, rfl, further⟩ := means
  exact required_of_scalar
    (fieldOf?_of_scalar further (by simp) (by simp) encodable List.mem_cons_self)

theorem readNodes_of_means {names : List Text} {values : List Value} (index : Nat)
    (encodable : ∀ name ∈ names, name.isEncodable = true)
    (means : Tree.ItemsMean collections (names.map fun name => (nodeItem name).value) values) :
    Document.readNodes collections index values = .ok names := by
  induction names generalizing values index with
  | nil =>
      rw [List.map_nil, Tree.ItemsMean] at means
      rw [means]
      rfl
  | cons name rest ih =>
      rw [List.map_cons, Tree.ItemsMean] at means
      obtain ⟨value, others, rfl, first, further⟩ := means
      have others := ih (index + 1) (fun other member => encodable other (List.mem_cons_of_mem _ member))
        further
      rw [Document.readNodes, node_of_means (encodable name List.mem_cons_self) first, others]
      rfl

theorem paths_of_means {paths : List Text} {values : List Value} (index : Nat)
    (encodable : ∀ path ∈ paths, path.isEncodable = true)
    (means : Tree.ItemsMean collections
      (paths.map fun path => .text path.chars (Scalar.staysPlain true path.chars)) values) :
    Checked.itemsFrom (Parts.name collections) index values = .ok paths := by
  induction paths generalizing values index with
  | nil =>
      rw [List.map_nil, Tree.ItemsMean] at means
      rw [means]
      rfl
  | cons path rest ih =>
      rw [List.map_cons, Tree.ItemsMean] at means
      obtain ⟨value, others, rfl, first, further⟩ := means
      have others := ih (index + 1) (fun other member => encodable other (List.mem_cons_of_mem _ member))
        further
      rw [Checked.itemsFrom, value_of_text (encodable path List.mem_cons_self) first, others]
      rfl

theorem sourceName_of_scalar {source : Text}
    (found : Value.fieldOf? "from" entries = some (.text source)) :
    Parts.sourceName collections entries = .ok source := by
  rw [Parts.sourceName, found]
  exact required_of_scalar found

theorem readEdge_of_means {entry : Entry} {value : Value} (index : Nat)
    (encodable : ∀ text ∈ entry.texts, text.isEncodable = true)
    (means : entry.item.value.Means collections value) :
    Document.readEdge collections index value = .ok entry := by
  cases entry with
  | direct source target =>
      rw [Entry.item, itemOf, Tree.Means] at means
      obtain ⟨id, rfl, further⟩ := means
      have distinct : (((Entry.direct source target).fields.map Field.entry).map Prod.fst).Nodup := by
        simp [Entry.fields, Field.entry, scalarField]
      have start := fieldOf?_of_scalar further distinct (by simp)
        (encodable source (by simp [Entry.texts])) List.mem_cons_self
      have goal := fieldOf?_of_scalar further distinct (by simp)
        (encodable target (by simp [Entry.texts])) (List.mem_cons_of_mem _ List.mem_cons_self)
      have unconditional := @fieldOf?_of_absent _ _ _ further "condition"
        (by simp [Entry.fields, Field.entry, scalarField])
      have noBranch : Document.isBranch (collections.entriesOf id) = false := by
        rw [Document.isBranch, unconditional]
        rfl
      rw [Document.readEdge, noBranch]
      simp only [Bool.false_eq_true, ↓reduceIte, Parts.directEntry, sourceName_of_scalar start,
        required_of_scalar goal]
      rfl
  | branch source condition paths =>
      rw [Entry.item, itemOf, Tree.Means] at means
      obtain ⟨id, rfl, further⟩ := means
      have distinct : (((Entry.branch source condition paths).fields.map Field.entry).map
          Prod.fst).Nodup := by
        simp [Entry.fields, Field.entry, scalarField, pathsField]
      have start := fieldOf?_of_scalar further distinct (by simp)
        (encodable source (by simp [Entry.texts])) List.mem_cons_self
      have under := fieldOf?_of_scalar further distinct (by simp)
        (encodable condition (by simp [Entry.texts])) (List.mem_cons_of_mem _ List.mem_cons_self)
      obtain ⟨list, ways, read⟩ := @fieldOf?_of_mem _ _ _ further distinct "paths" (by simp)
        (pathsField paths).value (List.mem_cons_of_mem _ (List.mem_cons_of_mem _ List.mem_cons_self))
      rw [pathsField, Tree.Means] at read
      obtain ⟨items, rfl, read⟩ := read
      have branches : Document.isBranch (collections.entriesOf id) = true := by
        rw [Document.isBranch, under, ways]
        rfl
      have targets : Parts.paths collections (collections.entriesOf id) = .ok paths := by
        rw [Parts.paths, ways]
        have each : ∀ path ∈ paths, path.isEncodable = true := fun path member =>
          encodable path (by simp [Entry.texts, member])
        simp only [Checked.items, paths_of_means 0 each read]
        rfl
      rw [Document.readEdge, branches]
      simp only [↓reduceIte, Parts.branchEntry, sourceName_of_scalar start, required_of_scalar under,
        targets]
      rfl

theorem readEdges_of_means {edges : List Entry} {values : List Value} (index : Nat)
    (encodable : ∀ entry ∈ edges, ∀ text ∈ entry.texts, text.isEncodable = true)
    (means : Tree.ItemsMean collections (edges.map fun entry => entry.item.value) values) :
    Document.readEdges collections index values = .ok edges := by
  induction edges generalizing values index with
  | nil =>
      rw [List.map_nil, Tree.ItemsMean] at means
      rw [means]
      rfl
  | cons entry rest ih =>
      rw [List.map_cons, Tree.ItemsMean] at means
      obtain ⟨value, others, rfl, first, further⟩ := means
      have others := ih (index + 1) (fun other member => encodable other (List.mem_cons_of_mem _ member))
        further
      rw [Document.readEdges, readEdge_of_means index (encodable entry List.mem_cons_self) first]
      simp only [others]
      rfl

theorem readFields_of_texts {table : Table Text}
    (texts : ∀ field ∈ table, Value.fieldOf? field.1 entries = some (.text field.2)) :
    Document.readFields collections entries table.keys = .ok (table.filter (·.2 != "")) := by
  induction table with
  | nil => rfl
  | cons field rest ih =>
      obtain ⟨key, text⟩ := field
      have here := texts (key, text) List.mem_cons_self
      have others := ih fun other member => texts other (List.mem_cons_of_mem _ member)
      rw [Table.keys] at others
      rw [Table.keys, List.map_cons, Document.readFields, here]
      split
      · rename_i absent
        exact absurd absent (by simp)
      · rename_i null
        exact absurd null (by simp)
      · rename_i empty
        obtain rfl := Value.text.inj (Option.some.inj empty)
        have none : (⟨[]⟩ : Text) = "" := rfl
        rw [List.filter_cons_of_neg (by simp [none]), others]
      · rename_i filled same
        obtain rfl := Option.some.inj same
        have given : text ≠ "" := fun empty => filled (congrArg Value.text empty)
        rw [List.filter_cons_of_pos (by simpa using given), Value.display, others]
        rfl

/-- What the text of a specification means is read as the specification, but for empty naming fields. -/
theorem ofValue_of_spelled {document : Document} (spelled : document.IsSpelled) {value : Value}
    (means : document.tree.Means collections value) :
    Document.ofValue collections value =
      .ok { document with config := document.config.filled } := by
  rw [Document.tree, Tree.Means] at means
  obtain ⟨id, rfl, further⟩ := means
  have distinct : ((document.fields.map Field.entry).map Prod.fst).Nodup := by
    rw [List.map_map]
    exact (@isBlock_fields document 0 _ spelled).distinct
  have nodesMember : sectionField "nodes" (document.nodes.map nodeItem) ∈ document.fields :=
    List.mem_append_right _ List.mem_cons_self
  have edgesMember : sectionField "edges" (document.edges.map Entry.item) ∈ document.fields :=
    List.mem_append_right _ (List.mem_cons_of_mem _ List.mem_cons_self)
  have encodable : ∀ text ∈ document.texts, text.isEncodable = true := fun text member =>
    Text.isEncodable_of_all (spelled.ordinary text member)
  obtain ⟨_, nodesFound, nodesMean⟩ :=
    fieldOf?_of_mem further distinct (by simp) (List.mem_map.mpr ⟨_, nodesMember, rfl⟩)
  obtain ⟨nodes, nodesListed, nodesMean⟩ := listUnder_of_means nodesFound nodesMean
  obtain ⟨_, edgesFound, edgesMean⟩ :=
    fieldOf?_of_mem further distinct (by simp) (List.mem_map.mpr ⟨_, edgesMember, rfl⟩)
  obtain ⟨edges, edgesListed, edgesMean⟩ := listUnder_of_means edgesFound edgesMean
  rw [List.map_map] at nodesMean edgesMean
  have texts : ∀ field ∈ document.config.entries,
      Value.fieldOf? field.1 (collections.entriesOf id) = some (.text field.2) := by
    intro field member
    have named : field.1.isEncodable = true := by
      revert field
      simp [Config.entries]
    refine fieldOf?_of_scalar further distinct named
      (encodable _ (Document.mem_texts_of_field member)) (List.mem_map.mpr ⟨_, ?_, rfl⟩)
    exact List.mem_append_left _ (List.mem_map.mpr ⟨field, member, rfl⟩)
  have fields := @readFields_of_texts collections _ _ _ texts
  have nodesRead := readNodes_of_means 0
    (fun name member => encodable name (Document.mem_texts_of_node member)) nodesMean
  have edgesRead := readEdges_of_means 0
    (fun entry member text inside => encodable text (Document.mem_texts_of_entry member inside)) edgesMean
  rw [Config.keys_entries] at fields
  rw [Document.ofValue, Document.ofEntries, nodesListed, edgesListed]
  show (Document.readNodes collections 0 nodes >>= fun _ => _) = _
  rw [nodesRead]
  show (Document.readEdges collections 0 edges >>= fun _ => _) = _
  rw [edgesRead, fields]
  rfl

theorem ofValue_of_means {document : Document} (readable : document.IsReadable) {value : Value}
    (means : document.tree.Means collections value) :
    Document.ofValue collections value = .ok document := by
  rw [ofValue_of_spelled readable.spelled means, Config.filled_of_named readable.named]

/-- The text of a specification is read back with standard naming fields in place of empty ones. -/
theorem parse_of_spelled {document : Document} {language : Option Text} {text : Text}
    (spelled : document.IsSpelled) (written : document.text language = .ok text) :
    Document.parse text = .ok { document with config := document.config.filled } := by
  obtain ⟨value, collections, loaded, means⟩ := load_of_spelled spelled written
  rw [Document.parse, loaded]
  exact ofValue_of_spelled spelled means

/-- The text of a specification is read back as the specification, whatever language its header
names. -/
theorem parse_text {document : Document} {language : Option Text} {text : Text}
    (readable : document.IsReadable) (written : document.text language = .ok text) :
    Document.parse text = .ok document := by
  obtain ⟨value, collections, loaded, means⟩ := load_of_text readable written
  rw [Document.parse, loaded]
  exact ofValue_of_means readable means

end ReadBack

def awkward : Document :=
  ⟨.standard, ["a b", "12", "- x"], [.direct "__start__" "a b", .direct "12" "- x",
    .branch "a b" "yes\n" ["12", "x: y", "", "__end__"]]⟩

section Usual

attribute [local instance] Host.usual

theorem parse_text_awkward :
    ∃ text, awkward.text (some "typescript") = .ok text ∧ awkward.IsReadable ∧
      Document.parse text = .ok awkward := by
  have readable : awkward.IsReadable := ⟨by decide +kernel, by decide +kernel, by decide +kernel⟩
  have ok : (awkward.text (some "typescript")).isOk = true := by decide +kernel
  cases written : awkward.text (some "typescript") with
  | error fault =>
      rw [written] at ok
      exact absurd ok (by simp [Except.isOk, Except.toBool])
  | ok text => exact ⟨text, rfl, readable, parse_text readable written⟩

end Usual

end Workflow.Spec
