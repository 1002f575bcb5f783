import Workflow.Proofs.Check.Field
import Workflow.Proofs.Yaml.Nesting

/-! Which texts are specifications. The value of a text is read if and only if it has the form of one; its
names are then read as their texts, in their order, and nothing else in it counts. -/

namespace Workflow

namespace Spec

open Yaml (Value Collections except_bind_eq_ok)

/-- Neither the null value nor a list nor a mapping. -/
def IsName : Value → Prop
  | .null | .list _ | .dict _ => False
  | _ => True

/-- The value that an edge starts from: under the second key only where the first is missing. -/
def sourceOf? (entries : List (Value × Value)) : Option Value :=
  (Value.fieldOf? "from" entries).or (Value.fieldOf? "from_" entries)

/-- The entry has a condition and a list of paths. -/
def IsBranch (entries : List (Value × Value)) : Prop :=
  (∃ condition, Value.fieldOf? "condition" entries = some condition) ∧
    ∃ list, Value.fieldOf? "paths" entries = some (.list list)

section

variable [Host] (collections : Collections)

/-- The items under a key that may be missing or null. -/
inductive Lists (entries : List (Value × Value)) (key : Text) : List Value → Prop where
  | missing (absent : Value.fieldOf? key entries = none) : Lists entries key []
  | null (held : Value.fieldOf? key entries = some .null) : Lists entries key []
  | list {id : Nat} (held : Value.fieldOf? key entries = some (.list id)) :
    Lists entries key (collections.itemsOf id)

inductive NodeForm : Value → Prop where
  | named {id : Nat} {name : Value}
    (held : Value.fieldOf? "name" (collections.entriesOf id) = some name) (isName : IsName name) :
    NodeForm (.dict id)

inductive EdgeForm : Value → Prop where
  | branch {id list : Nat} {source condition : Value}
    (labelled : Value.fieldOf? "condition" (collections.entriesOf id) = some condition)
    (listed : Value.fieldOf? "paths" (collections.entriesOf id) = some (.list list))
    (start : sourceOf? (collections.entriesOf id) = some source) (sourceName : IsName source)
    (conditionName : IsName condition) (pathNames : ∀ path ∈ collections.itemsOf list, IsName path) :
    EdgeForm (.dict id)
  | direct {id : Nat} {source target : Value} (single : ¬IsBranch (collections.entriesOf id))
    (start : sourceOf? (collections.entriesOf id) = some source)
    (stop : Value.fieldOf? "to" (collections.entriesOf id) = some target) (sourceName : IsName source)
    (targetName : IsName target) : EdgeForm (.dict id)

/-- The grammar: a mapping with nodes and edges that have their forms. -/
inductive Grammatical : Value → Prop where
  | mapping {id : Nat} {nodes edges : List Value}
    (nodesListed : Lists collections (collections.entriesOf id) "nodes" nodes)
    (edgesListed : Lists collections (collections.entriesOf id) "edges" edges)
    (nodeForms : ∀ item ∈ nodes, NodeForm collections item)
    (edgeForms : ∀ item ∈ edges, EdgeForm collections item) : Grammatical (.dict id)

structure ReadsName (value : Value) (text : Text) : Prop where
  isName : IsName value
  shown : value.display collections = .ok text

inductive ReadsNode : Value → Text → Prop where
  | named {id : Nat} {value : Value} {name : Text}
    (held : Value.fieldOf? "name" (collections.entriesOf id) = some value)
    (reads : ReadsName collections value name) : ReadsNode (.dict id) name

inductive ReadsEdge : Value → Entry → Prop where
  | branch {id list : Nat} {first second : Value} {source condition : Text} {paths : List Text}
    (labelled : Value.fieldOf? "condition" (collections.entriesOf id) = some second)
    (listed : Value.fieldOf? "paths" (collections.entriesOf id) = some (.list list))
    (start : sourceOf? (collections.entriesOf id) = some first)
    (readsSource : ReadsName collections first source)
    (readsCondition : ReadsName collections second condition)
    (readsPaths : List.Forall₂ (ReadsName collections) (collections.itemsOf list) paths) :
    ReadsEdge (.dict id) (.branch source condition paths)
  | direct {id : Nat} {first second : Value} {source target : Text}
    (single : ¬IsBranch (collections.entriesOf id))
    (start : sourceOf? (collections.entriesOf id) = some first)
    (stop : Value.fieldOf? "to" (collections.entriesOf id) = some second)
    (readsSource : ReadsName collections first source)
    (readsTarget : ReadsName collections second target) :
    ReadsEdge (.dict id) (.direct source target)

/-- What is given for a naming field, if it is neither missing nor null nor empty. -/
def given? (entries : List (Value × Value)) (key : Text) : Option Value :=
  match Value.fieldOf? key entries with
  | none | some .null | some (.text "") => none
  | some value => some value

/-- Words for the language that are not known. -/
def IsForeign (key word : Text) : Prop := key = "language" ∧ Language.ofWord? word = none

inductive ReadsField (entries : List (Value × Value)) (key : Text) : Text → Prop where
  | standard {default : Text} (nothing : given? entries key = none)
    (usual : Config.standard.entries.get? key = some default) : ReadsField entries key default
  | foreign {value : Value} {word default : Text} (given : given? entries key = some value)
    (shown : value.display collections = .ok word) (isForeign : IsForeign key word)
    (usual : Config.standard.entries.get? key = some default) : ReadsField entries key default
  | given {value : Value} {text : Text} (given : given? entries key = some value)
    (shown : value.display collections = .ok text) (known : ¬IsForeign key text) :
    ReadsField entries key text

/-- A document as it stands in a value. -/
inductive Reads : Value → Document → Prop where
  | mapping {id : Nat} {document : Document} {nodes edges : List Value}
    (nodesListed : Lists collections (collections.entriesOf id) "nodes" nodes)
    (edgesListed : Lists collections (collections.entriesOf id) "edges" edges)
    (readsNodes : List.Forall₂ (ReadsNode collections) nodes document.nodes)
    (readsEdges : List.Forall₂ (ReadsEdge collections) edges document.edges)
    (readsFields : ∀ key ∈ Config.keys, ∃ text, document.config.entries.get? key = some text ∧
      ReadsField collections (collections.entriesOf id) key text) : Reads (.dict id) document

end

variable {collections : Collections} {value : Value} {entries : List (Value × Value)} {key : Text}

namespace Document

theorem isBranch_iff : isBranch entries = true ↔ IsBranch entries := by
  rw [isBranch, IsBranch, Bool.and_eq_true, Option.isSome_iff_exists]
  refine and_congr_right fun _ => ?_
  cases Value.fieldOf? "paths" entries with
  | none => simp
  | some value => cases value <;> simp

theorem listUnder_eq_ok_iff {items : List Value} :
    listUnder collections entries key = .ok items ↔ Lists collections entries key items := by
  constructor
  · intro found
    unfold listUnder at found
    split at found
    · rename_i absent
      obtain rfl := Except.ok.inj found
      exact .missing absent
    · rename_i held
      obtain rfl := Except.ok.inj found
      exact .null held
    · rename_i held
      obtain rfl := Except.ok.inj found
      exact .list held
    · cases found
  · intro lists
    cases lists with
    | missing absent => rw [listUnder, absent]
    | null held => rw [listUnder, held]
    | list held => rw [listUnder, held]

theorem walk_eq_ok_iff {α : Type} {reads : Value → α → Prop}
    (step : Nat → Value → Except ReadFault α) (walk : Nat → List Value → Except ReadFault (List α))
    (nil : ∀ index, walk index [] = .ok [])
    (cons : ∀ index item rest, walk index (item :: rest) =
      match step index item with
      | .error fault => .error fault
      | .ok result => (walk (index + 1) rest).map (result :: ·))
    (each : ∀ index item result, step index item = .ok result ↔ reads item result)
    {index : Nat} {items : List Value} {results : List α} :
    walk index items = .ok results ↔ List.Forall₂ reads items results := by
  induction items generalizing index results with
  | nil =>
      rw [nil, List.forall₂_nil_left_iff, Except.ok.injEq]
      exact eq_comm
  | cons item rest ih =>
      rw [cons, List.forall₂_cons_left_iff]
      cases here : step index item with
      | error fault =>
          refine iff_of_false (fun read => by cases read) ?_
          rintro ⟨result, others, first, _⟩
          cases here.symm.trans ((each index item result).mpr first)
      | ok result =>
          have first := (each index item result).mp here
          cases later : walk (index + 1) rest with
          | error fault =>
              refine iff_of_false (fun read => by cases read) ?_
              rintro ⟨_, others, _, more, _⟩
              cases later.symm.trans (ih.mpr more)
          | ok others =>
              constructor
              · intro read
                obtain rfl := Except.ok.inj read
                exact ⟨result, others, first, ih.mp later, rfl⟩
              · rintro ⟨other, more, same, tail, rfl⟩
                obtain rfl := Except.ok.inj (here.symm.trans ((each index item other).mpr same))
                obtain rfl := Except.ok.inj (later.symm.trans (ih.mpr tail))
                rfl

theorem mapError_eq_ok_iff {ε δ α : Type} {found : Except ε α} {f : ε → δ} {value : α} :
    found.mapError f = .ok value ↔ found = .ok value := by
  cases found <;> simp [Except.mapError]

theorem given?_of_held {value : Value} (held : Value.fieldOf? key entries = some value)
    (notNull : value = .null → False) (notEmpty : value = .text "" → False) :
    given? entries key = some value := by
  rw [given?, held]
  split
  · rename_i impossible
    cases impossible
  · rename_i same
    exact absurd (Option.some.inj same) notNull
  · rename_i same
    exact absurd (Option.some.inj same) notEmpty
  · rename_i same
    exact same.symm

theorem held_of_given? {value : Value} (given : given? entries key = some value) :
    Value.fieldOf? key entries = some value := by
  unfold given? at given
  split at given
  · cases given
  · cases given
  · cases given
  · rename_i held
    rw [held, given]

end Document

namespace Config

theorem get?_ofEntries (fields : Table Text) (member : key ∈ keys) :
    ∃ default, standard.entries.get? key = some default ∧
      (fields.get? key = none → (ofEntries fields).entries.get? key = some default) ∧
      ∀ text, fields.get? key = some text →
        (IsForeign key text → (ofEntries fields).entries.get? key = some default) ∧
        (¬IsForeign key text → (ofEntries fields).entries.get? key = some text) := by
  by_cases language : key = "language"
  · subst language
    have held : (ofEntries fields).entries.get? "language" =
        some (((fields.get? "language").bind Language.ofWord?).getD standard.language).word := rfl
    refine ⟨_, rfl, fun absent => by rw [held, absent]; rfl, fun text given => ?_⟩
    rw [held, given, Option.bind_some]
    cases known : Language.ofWord? text with
    | none => exact ⟨fun _ => rfl, fun own => absurd ⟨rfl, known⟩ own⟩
    | some found =>
        refine ⟨fun foreign => ?_, fun _ => congrArg some (Language.word_of_ofWord? known)⟩
        cases known.symm.trans foreign.2
  · have plain : ∃ default, standard.entries.get? key = some default ∧
        (ofEntries fields).entries.get? key = some ((fields.get? key).getD default) := by
      simp only [keys, List.mem_cons, List.not_mem_nil, or_false, language, false_or] at member
      rcases member with rfl | rfl | rfl | rfl | rfl | rfl | rfl | rfl | rfl | rfl | rfl
      all_goals exact ⟨_, rfl, rfl⟩
    obtain ⟨default, usual, held⟩ := plain
    refine ⟨default, usual, fun absent => by rw [held, absent]; rfl, fun text given => ?_⟩
    exact ⟨fun foreign => absurd foreign.1 language, fun _ => by rw [held, given]; rfl⟩

theorem ofEntries_congr {first second : Table Text}
    (same : ∀ key ∈ keys, first.get? key = second.get? key) : ofEntries first = ofEntries second := by
  simp only [keys, List.forall_mem_cons] at same
  simp only [ofEntries, same]

theorem eq_of_fields {first second : Config}
    (same : ∀ key ∈ keys, first.entries.get? key = second.entries.get? key) : first = second := by
  rw [← ofEntries_entries first, ofEntries_congr same, ofEntries_entries]

end Config

theorem mem_of_fieldOf? (held : Value.fieldOf? key entries = some value) :
    (.text key, value) ∈ entries := by
  induction entries with
  | nil => cases held
  | cons entry rest ih =>
      unfold Value.fieldOf? at held
      split at held
      · cases held
      · rename_i same
        obtain ⟨rfl, rfl⟩ := List.cons.inj same
        split at held
        · rename_i equal
          subst equal
          obtain rfl := Option.some.inj held
          exact List.mem_cons_self
        · exact List.mem_cons_of_mem _ (ih held)
      · rename_i same
        obtain ⟨rfl, rfl⟩ := List.cons.inj same
        exact List.mem_cons_of_mem _ (ih held)

theorem exists_forall₂_iff {α β : Type} {reads : α → β → Prop} {items : List α} :
    (∃ results, List.Forall₂ reads items results) ↔ ∀ item ∈ items, ∃ result, reads item result := by
  induction items with
  | nil => exact ⟨fun _ _ none => absurd none List.not_mem_nil, fun _ => ⟨[], .nil⟩⟩
  | cons item rest ih =>
      rw [List.forall_mem_cons, ← ih]
      constructor
      · rintro ⟨results, each⟩
        cases each with
        | cons first later => exact ⟨⟨_, first⟩, _, later⟩
      · rintro ⟨⟨result, first⟩, results, later⟩
        exact ⟨_, .cons first later⟩

section Reading

variable [Host]

theorem readsName_iff {text : Text} :
    ReadsName collections value text ↔ IsName value ∧ value.display collections = .ok text :=
  ⟨fun reads => ⟨reads.isName, reads.shown⟩, fun ⟨isName, shown⟩ => ⟨isName, shown⟩⟩

namespace Parts

theorem name_of_shown {text : Text} (isName : IsName value)
    (shown : value.display collections = .ok text) : name collections value = .ok text := by
  cases value with
  | null | list _ | dict _ => exact isName.elim
  | _ => simp only [name, shown]

theorem name_of_unshown {cause : Yaml.Error} (isName : IsName value)
    (unshown : value.display collections = .error cause) :
    name collections value = .problem (.valueError Numeral.tooLong) := by
  cases value with
  | null | list _ | dict _ => exact isName.elim
  | _ => simp only [name, unshown]

theorem name_eq_ok_iff {text : Text} :
    name collections value = .ok text ↔ ReadsName collections value text := by
  rw [readsName_iff]
  by_cases isName : IsName value
  · cases shown : value.display collections with
    | ok found => simp [name_of_shown isName shown, isName]
    | error cause => simp [name_of_unshown isName shown, Checked.problem]
  · cases value with
    | null | list _ | dict _ => exact iff_of_false (fun read => by cases read) fun reads => reads.1
    | _ => exact absurd trivial isName

theorem required_eq_ok_iff {text : Text} :
    required collections key entries = .ok text ↔
      ∃ value, Value.fieldOf? key entries = some value ∧ ReadsName collections value text := by
  rw [required, Checked.under_eq_ok_iff]
  cases Value.fieldOf? key entries with
  | none => simp [Checked.problem]
  | some value => simp [name_eq_ok_iff]

theorem sourceName_eq_ok_iff {text : Text} :
    sourceName collections entries = .ok text ↔
      ∃ value, sourceOf? entries = some value ∧ ReadsName collections value text := by
  rw [sourceName, sourceOf?]
  cases first : Value.fieldOf? "from" entries with
  | some value => simp [required_eq_ok_iff, first]
  | none =>
      cases second : Value.fieldOf? "from_" entries with
      | some value => simp [required_eq_ok_iff, second]
      | none => simp [required_eq_ok_iff, first]

theorem paths_eq_ok_iff {texts : List Text} :
    paths collections entries = .ok texts ↔
      ∃ list, Value.fieldOf? "paths" entries = some (.list list) ∧
        List.Forall₂ (ReadsName collections) (collections.itemsOf list) texts := by
  rw [paths, Checked.under_eq_ok_iff]
  cases held : Value.fieldOf? "paths" entries with
  | none => simp [Checked.problem]
  | some value =>
      cases value with
      | list list => simp [Checked.items, Checked.itemsFrom_eq_ok_iff, name_eq_ok_iff]
      | _ => simp [Checked.problem]

theorem node_eq_ok_iff {name : Text} :
    node collections value = .ok name ↔ ReadsNode collections value name := by
  cases value with
  | dict id =>
      rw [node, required_eq_ok_iff]
      constructor
      · rintro ⟨value, held, reads⟩
        exact .named held reads
      · rintro ⟨held, reads⟩
        exact ⟨_, held, reads⟩
  | _ => exact iff_of_false (fun read => by cases read) fun reads => by cases reads

theorem directEntry_eq_ok_iff {entry : Entry} :
    directEntry collections entries = .ok entry ↔
      ∃ source target, sourceName collections entries = .ok source ∧
        required collections "to" entries = .ok target ∧ .direct source target = entry := by
  simp only [directEntry, Checked.arg_eq_ok_iff, Except.ok.injEq]
  constructor
  · rintro ⟨_, target, ⟨_, source, rfl, start, rfl⟩, stop, same⟩
    exact ⟨source, target, start, stop, same⟩
  · rintro ⟨source, target, start, stop, same⟩
    exact ⟨_, target, ⟨_, source, rfl, start, rfl⟩, stop, same⟩

theorem branchEntry_eq_ok_iff {entry : Entry} :
    branchEntry collections entries = .ok entry ↔
      ∃ source condition targets, sourceName collections entries = .ok source ∧
        required collections "condition" entries = .ok condition ∧
        paths collections entries = .ok targets ∧ .branch source condition targets = entry := by
  simp only [branchEntry, Checked.arg_eq_ok_iff, Except.ok.injEq]
  constructor
  · rintro ⟨_, targets, ⟨_, condition, ⟨_, source, rfl, start, rfl⟩, labelled, rfl⟩, listed, same⟩
    exact ⟨source, condition, targets, start, labelled, listed, same⟩
  · rintro ⟨source, condition, targets, start, labelled, listed, same⟩
    exact ⟨_, targets, ⟨_, condition, ⟨_, source, rfl, start, rfl⟩, labelled, rfl⟩, listed, same⟩

end Parts

namespace Document

theorem readNodes_eq_ok_iff {index : Nat} {items : List Value} {names : List Text} :
    readNodes collections index items = .ok names ↔
      List.Forall₂ (ReadsNode collections) items names := by
  refine walk_eq_ok_iff
    (fun index item => (Parts.node collections item).mapError (.malformedNode index))
    (readNodes collections) (fun _ => rfl) (fun index item rest => ?_)
    fun _ _ _ => mapError_eq_ok_iff.trans Parts.node_eq_ok_iff
  rw [readNodes]
  cases Parts.node collections item <;> rfl

theorem readEdge_eq_ok_iff {index : Nat} {item : Value} {entry : Entry} :
    readEdge collections index item = .ok entry ↔ ReadsEdge collections item entry := by
  constructor
  · intro found
    unfold readEdge at found
    split at found
    · rename_i id
      rw [mapError_eq_ok_iff] at found
      split at found
      · rename_i branches
        obtain ⟨source, condition, targets, start, labelled, listed, rfl⟩ :=
          Parts.branchEntry_eq_ok_iff.mp found
        obtain ⟨first, started, readsSource⟩ := Parts.sourceName_eq_ok_iff.mp start
        obtain ⟨second, held, readsCondition⟩ := Parts.required_eq_ok_iff.mp labelled
        obtain ⟨list, under, readsPaths⟩ := Parts.paths_eq_ok_iff.mp listed
        exact .branch held under started readsSource readsCondition readsPaths
      · rename_i single
        obtain ⟨source, target, start, stop, rfl⟩ := Parts.directEntry_eq_ok_iff.mp found
        obtain ⟨first, started, readsSource⟩ := Parts.sourceName_eq_ok_iff.mp start
        obtain ⟨second, held, readsTarget⟩ := Parts.required_eq_ok_iff.mp stop
        exact .direct (fun branches => single (isBranch_iff.mpr branches)) started held readsSource
          readsTarget
    · cases found
  · intro reads
    cases reads with
    | branch labelled listed start readsSource readsCondition readsPaths =>
        have branches := isBranch_iff.mpr ⟨⟨_, labelled⟩, _, listed⟩
        rw [readEdge, if_pos branches, mapError_eq_ok_iff, Parts.branchEntry_eq_ok_iff]
        exact ⟨_, _, _, Parts.sourceName_eq_ok_iff.mpr ⟨_, start, readsSource⟩,
          Parts.required_eq_ok_iff.mpr ⟨_, labelled, readsCondition⟩,
          Parts.paths_eq_ok_iff.mpr ⟨_, listed, readsPaths⟩, rfl⟩
    | direct single start stop readsSource readsTarget =>
        have unbranched : ¬isBranch _ = true := fun branches => single (isBranch_iff.mp branches)
        rw [readEdge, if_neg unbranched, mapError_eq_ok_iff, Parts.directEntry_eq_ok_iff]
        exact ⟨_, _, Parts.sourceName_eq_ok_iff.mpr ⟨_, start, readsSource⟩,
          Parts.required_eq_ok_iff.mpr ⟨_, stop, readsTarget⟩, rfl⟩

theorem readEdges_eq_ok_iff {index : Nat} {items : List Value} {edges : List Entry} :
    readEdges collections index items = .ok edges ↔
      List.Forall₂ (ReadsEdge collections) items edges := by
  refine walk_eq_ok_iff (readEdge collections) (readEdges collections) (fun _ => rfl)
    (fun index item rest => ?_) fun _ _ _ => readEdge_eq_ok_iff
  rw [readEdges]
  cases readEdge collections index item <;> rfl

theorem readFields_cons (collections : Collections) (entries : List (Value × Value)) (key : Text)
    (rest : List Text) :
    given? entries key = none ∧
        readFields collections entries (key :: rest) = readFields collections entries rest ∨
      ∃ value, given? entries key = some value ∧ readFields collections entries (key :: rest) =
        match value.display collections with
        | .error fault => .error (.markup fault)
        | .ok text => (readFields collections entries rest).map ((key, text) :: ·) := by
  rw [readFields]
  split
  · rename_i absent
    exact .inl ⟨by rw [given?, absent], rfl⟩
  · rename_i held
    exact .inl ⟨by rw [given?, held], rfl⟩
  · rename_i held
    exact .inl ⟨by simp [given?, held], rfl⟩
  · rename_i value notNull notEmpty held
    refine .inr ⟨value, given?_of_held held notNull notEmpty, ?_⟩
    cases value.display collections <;> rfl

theorem get?_of_readFields {keys : List Text} {fields : Table Text}
    (read : readFields collections entries keys = .ok fields) (key : Text) :
    (key ∈ keys → given? entries key = none) ∧ fields.get? key = none ∨
      ∃ value text, given? entries key = some value ∧ value.display collections = .ok text ∧
        fields.get? key = some text := by
  induction keys generalizing fields with
  | nil =>
      obtain rfl := Except.ok.inj read
      exact .inl ⟨fun none => absurd none List.not_mem_nil, rfl⟩
  | cons first rest ih =>
      rcases readFields_cons collections entries first rest with ⟨given, same⟩ | ⟨value, given, same⟩
      · rw [same] at read
        refine (ih read).imp_left fun ⟨others, absent⟩ => ⟨fun member => ?_, absent⟩
        rcases List.mem_cons.mp member with rfl | later
        · exact given
        · exact others later
      · rw [same] at read
        cases shown : value.display collections with
        | error fault => simp [shown] at read
        | ok text =>
            cases further : readFields collections entries rest with
            | error fault => simp [shown, further, Except.map] at read
            | ok others =>
                simp only [shown, further, Except.map, Except.ok.injEq] at read
                subst read
                by_cases here : first = key
                · subst here
                  exact .inr ⟨value, text, given, shown, if_pos rfl⟩
                · rw [Table.get?, if_neg here]
                  refine (ih further).imp_left fun ⟨absent, missing⟩ => ⟨fun member => ?_, missing⟩
                  exact absent ((List.mem_cons.mp member).resolve_left fun equal => here equal.symm)

end Document

theorem ReadsField.unique {first second : Text} (left : ReadsField collections entries key first)
    (right : ReadsField collections entries key second) : first = second := by
  cases left with
  | standard nothing usual =>
      cases right with
      | standard _ other => exact Option.some.inj (usual.symm.trans other)
      | foreign given _ _ _ => cases nothing.symm.trans given
      | given given _ _ => cases nothing.symm.trans given
  | foreign given shown isForeign usual =>
      cases right with
      | standard nothing _ => cases nothing.symm.trans given
      | foreign _ _ _ other => exact Option.some.inj (usual.symm.trans other)
      | given again also known =>
          obtain rfl := Option.some.inj (given.symm.trans again)
          obtain rfl := Except.ok.inj (shown.symm.trans also)
          exact absurd isForeign known
  | given given shown known =>
      cases right with
      | standard nothing _ => cases nothing.symm.trans given
      | foreign again also isForeign _ =>
          obtain rfl := Option.some.inj (given.symm.trans again)
          obtain rfl := Except.ok.inj (shown.symm.trans also)
          exact absurd isForeign known
      | given again also _ =>
          obtain rfl := Option.some.inj (given.symm.trans again)
          exact Except.ok.inj (shown.symm.trans also)

namespace Document

theorem readsField_ofEntries {fields : Table Text}
    (read : readFields collections entries Config.keys = .ok fields) :
    ∀ key ∈ Config.keys, ∃ text, (Config.ofEntries fields).entries.get? key = some text ∧
      ReadsField collections entries key text := by
  intro key member
  obtain ⟨default, usual, absent, present⟩ := Config.get?_ofEntries fields member
  rcases get?_of_readFields read key with ⟨nothing, missing⟩ | ⟨value, text, given, shown, held⟩
  · exact ⟨default, absent missing, .standard (nothing member) usual⟩
  · by_cases foreign : IsForeign key text
    · exact ⟨default, (present text held).1 foreign, .foreign given shown foreign usual⟩
    · exact ⟨text, (present text held).2 foreign, .given given shown foreign⟩

theorem exists_readFields
    (shown : ∀ key ∈ Config.keys, ∀ value, given? entries key = some value →
      ∃ text, value.display collections = .ok text) :
    ∃ fields, readFields collections entries Config.keys = .ok fields := by
  cases read : readFields collections entries Config.keys with
  | ok fields => exact ⟨fields, rfl⟩
  | error fault =>
      obtain ⟨key, member, value, cause, held, unshown⟩ := readFields_fails_iff.mp ⟨fault, read⟩
      have given : given? entries key = some value := by
        refine given?_of_held held ?_ ?_
        · rintro rfl
          cases unshown
        · rintro rfl
          cases unshown
      obtain ⟨text, same⟩ := shown key member value given
      cases same.symm.trans unshown

theorem ofValue_eq_ok_iff {document : Document} :
    ofValue collections value = .ok document ↔ Reads collections value document := by
  constructor
  · intro found
    unfold ofValue at found
    split at found
    · obtain ⟨nodeItems, nodesListed, found⟩ := except_bind_eq_ok found
      obtain ⟨nodes, named, found⟩ := except_bind_eq_ok found
      obtain ⟨edgeItems, edgesListed, found⟩ := except_bind_eq_ok found
      obtain ⟨edges, linked, found⟩ := except_bind_eq_ok found
      obtain ⟨fields, given, found⟩ := except_bind_eq_ok found
      obtain rfl := Except.ok.inj found
      exact .mapping (listUnder_eq_ok_iff.mp nodesListed) (listUnder_eq_ok_iff.mp edgesListed)
        (readNodes_eq_ok_iff.mp named) (readEdges_eq_ok_iff.mp linked) (readsField_ofEntries given)
    · cases found
  · intro reads
    cases reads with
    | @mapping id document nodes edges nodesListed edgesListed readsNodes readsEdges readsFields =>
        obtain ⟨fields, given⟩ : ∃ fields,
            readFields collections (collections.entriesOf id) Config.keys = .ok fields := by
          refine exists_readFields fun key member value held => ?_
          obtain ⟨text, _, reads⟩ := readsFields key member
          cases reads with
          | standard nothing _ => cases nothing.symm.trans held
          | foreign given shown _ _ =>
              obtain rfl := Option.some.inj (given.symm.trans held)
              exact ⟨_, shown⟩
          | given given shown _ =>
              obtain rfl := Option.some.inj (given.symm.trans held)
              exact ⟨_, shown⟩
        have config : Config.ofEntries fields = document.config := by
          refine Config.eq_of_fields fun key member => ?_
          obtain ⟨text, held, reads⟩ := readsField_ofEntries given key member
          obtain ⟨other, also, again⟩ := readsFields key member
          rw [held, also, reads.unique again]
        rw [ofValue, ofEntries, listUnder_eq_ok_iff.mpr nodesListed,
          listUnder_eq_ok_iff.mpr edgesListed, given]
        simp only [bind, Except.bind, readNodes_eq_ok_iff.mpr readsNodes,
          readEdges_eq_ok_iff.mpr readsEdges, config]
        rfl

end Document

section

variable (nested : collections.Nested) (writable : collections.Writable)

include nested writable

theorem exists_display_of_field {id : Nat}
    (held : Value.fieldOf? key (collections.entriesOf id) = some value) :
    ∃ text, value.display collections = .ok text := by
  have member := mem_of_fieldOf? held
  exact Collections.exists_display nested writable (writable.entries id _ member).2
    (.inl (nested.entries id _ member).2)

theorem exists_readsName_of_field {id : Nat}
    (held : Value.fieldOf? key (collections.entriesOf id) = some value) (isName : IsName value) :
    ∃ text, ReadsName collections value text := by
  obtain ⟨text, shown⟩ := exists_display_of_field nested writable held
  exact ⟨text, isName, shown⟩

theorem exists_readsName_of_source {id : Nat}
    (start : sourceOf? (collections.entriesOf id) = some value) (isName : IsName value) :
    ∃ text, ReadsName collections value text := by
  rcases Option.or_eq_some_iff.mp start with held | ⟨_, held⟩
  · exact exists_readsName_of_field nested writable held isName
  · exact exists_readsName_of_field nested writable held isName

theorem exists_readsName_of_item {id : Nat} (member : value ∈ collections.itemsOf id)
    (isName : IsName value) : ∃ text, ReadsName collections value text := by
  obtain ⟨text, shown⟩ := Collections.exists_display nested writable
    (writable.items id value member) (.inr ⟨id, member⟩)
  exact ⟨text, isName, shown⟩

theorem nodeForm_iff {item : Value} :
    NodeForm collections item ↔ ∃ name, ReadsNode collections item name := by
  constructor
  · rintro ⟨held, isName⟩
    obtain ⟨name, reads⟩ := exists_readsName_of_field nested writable held isName
    exact ⟨name, .named held reads⟩
  · rintro ⟨name, held, reads⟩
    exact .named held reads.isName

theorem edgeForm_iff {item : Value} :
    EdgeForm collections item ↔ ∃ entry, ReadsEdge collections item entry := by
  constructor
  · intro form
    cases form with
    | branch labelled listed start sourceName conditionName pathNames =>
        obtain ⟨source, readsSource⟩ := exists_readsName_of_source nested writable start sourceName
        obtain ⟨condition, readsCondition⟩ :=
          exists_readsName_of_field nested writable labelled conditionName
        obtain ⟨paths, readsPaths⟩ := exists_forall₂_iff.mpr fun path member =>
          exists_readsName_of_item nested writable member (pathNames path member)
        exact ⟨_, .branch labelled listed start readsSource readsCondition readsPaths⟩
    | direct single start stop sourceName targetName =>
        obtain ⟨source, readsSource⟩ := exists_readsName_of_source nested writable start sourceName
        obtain ⟨target, readsTarget⟩ := exists_readsName_of_field nested writable stop targetName
        exact ⟨_, .direct single start stop readsSource readsTarget⟩
  · rintro ⟨entry, reads⟩
    cases reads with
    | branch labelled listed start readsSource readsCondition readsPaths =>
        refine .branch labelled listed start readsSource.isName readsCondition.isName ?_
        intro path member
        obtain ⟨text, reads⟩ := exists_forall₂_iff.mp ⟨_, readsPaths⟩ path member
        exact reads.isName
    | direct single start stop readsSource readsTarget =>
        exact .direct single start stop readsSource.isName readsTarget.isName

/-- A value has a document just if it has the form of one. -/
theorem grammatical_iff :
    Grammatical collections value ↔ ∃ document, Reads collections value document := by
  constructor
  · intro grammatical
    cases grammatical with
    | @mapping id nodeItems edgeItems nodesListed edgesListed nodeForms edgeForms =>
        obtain ⟨nodes, readsNodes⟩ := exists_forall₂_iff.mpr fun item member =>
          (nodeForm_iff nested writable).mp (nodeForms item member)
        obtain ⟨edges, readsEdges⟩ := exists_forall₂_iff.mpr fun item member =>
          (edgeForm_iff nested writable).mp (edgeForms item member)
        obtain ⟨fields, given⟩ := Document.exists_readFields fun key _ value held =>
          exists_display_of_field nested writable (Document.held_of_given? held)
        exact ⟨⟨Config.ofEntries fields, nodes, edges⟩, .mapping nodesListed edgesListed readsNodes
          readsEdges (Document.readsField_ofEntries given)⟩
  · rintro ⟨document, nodesListed, edgesListed, readsNodes, readsEdges, _⟩
    refine .mapping nodesListed edgesListed (fun item member => ?_) fun item member => ?_
    · exact (nodeForm_iff nested writable).mpr (exists_forall₂_iff.mp ⟨_, readsNodes⟩ item member)
    · exact (edgeForm_iff nested writable).mpr (exists_forall₂_iff.mp ⟨_, readsEdges⟩ item member)

theorem message_of_ofValue {fault : ReadFault}
    (failed : Document.ofValue collections value = .error fault) : fault.message? ≠ none := by
  unfold Document.ofValue at failed
  split at failed
  · intro silent
    obtain ⟨_, _, key, _, unshown, cause, held, same⟩ :=
      Document.ofEntries_breaks_iff.mp ⟨fault, failed, silent⟩
    obtain ⟨text, shown⟩ := exists_display_of_field nested writable held
    cases shown.symm.trans same
  · obtain rfl := Except.error.inj failed
    simp [ReadFault.message?]

end

end Reading

def mixed : Text :=
  "nodes: [\x7bname: 1, note: x\x7d]\nedges:\n- \x7bfrom: 1, condition: yes, paths: [2.5, !!set \x7ba\x7d]\x7d\n" ++
    "- \x7bfrom_: 2024-01-02, to: no, paths: x\x7d\nname: ''\nlanguage: go\nstate: [1, ~]\nlater: \x7b\x7d"

def mixedDocument : Document :=
  ⟨{ Config.standard with state := "[1, None]" }, ["1"],
    [.branch "1" "True" ["2.5", "\x7b'a'\x7d"], .direct "2024-01-02" "False"]⟩

section Usual

attribute [local instance] Host.usual

end Usual

end Spec

end Workflow
