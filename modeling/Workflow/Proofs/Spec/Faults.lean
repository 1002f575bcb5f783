import Workflow.Proofs.Graph.RoundTrip
import Workflow.Spec.Reading

/-! Faults that nobody expects: texts that are neither read nor refused with a message, and graphs that
are neither written nor refused for their shape. -/

namespace Workflow

section Traversal

variable {α β ε : Type} {f : α → Except ε β} {list : List α}

theorem except_map_eq_error {found : Except ε α} {g : α → β} {fault : ε}
    (failed : found.map g = .error fault) : found = .error fault := by
  cases found with
  | ok value => exact absurd failed (by simp [Except.map])
  | error first =>
      obtain rfl := Except.error.inj failed
      rfl

theorem except_bind_eq_error {first : Except ε α} {next : α → Except ε β} {fault : ε}
    (failed : (first >>= next) = .error fault) :
    first = .error fault ∨ ∃ value, first = .ok value ∧ next value = .error fault := by
  cases first with
  | ok value => exact .inr ⟨value, rfl, failed⟩
  | error early =>
      obtain rfl := Except.error.inj failed
      exact .inl rfl

theorem fault_of_mapM {fault : ε} (failed : list.mapM f = .error fault) :
    ∃ item ∈ list, f item = .error fault := by
  induction list with
  | nil => exact absurd failed (by simp [pure, Except.pure])
  | cons item rest ih =>
      rw [List.mapM_cons] at failed
      cases here : f item with
      | error first =>
          rw [here] at failed
          obtain rfl := Except.error.inj failed
          exact ⟨item, List.mem_cons_self, here⟩
      | ok value =>
          cases further : rest.mapM f with
          | error later =>
              rw [here, further] at failed
              obtain rfl := Except.error.inj failed
              obtain ⟨other, member, same⟩ := ih further
              exact ⟨other, List.mem_cons_of_mem _ member, same⟩
          | ok values =>
              rw [here, further] at failed
              exact absurd failed (by simp [bind, Except.bind, pure, Except.pure])

def Fails (found : Except ε α) : Prop := ∃ fault, found = .error fault

theorem mapM_fails_iff : Fails (list.mapM f) ↔ ∃ item ∈ list, Fails (f item) := by
  constructor
  · rintro ⟨fault, failed⟩
    obtain ⟨item, member, same⟩ := fault_of_mapM failed
    exact ⟨item, member, fault, same⟩
  · rintro ⟨item, member, fault, failed⟩
    induction list with
    | nil => exact absurd member List.not_mem_nil
    | cons head rest ih =>
        rw [List.mapM_cons]
        cases here : f head with
        | error first => exact ⟨first, rfl⟩
        | ok value =>
            rcases List.mem_cons.mp member with rfl | deeper
            · exact absurd (here.symm.trans failed) (by simp)
            · obtain ⟨later, further⟩ := ih deeper
              exact ⟨later, by rw [further]; rfl⟩

theorem map_fails_iff {found : Except ε α} {g : α → β} : Fails (found.map g) ↔ Fails found := by
  cases found with
  | error fault => simp [Fails, Except.map]
  | ok value => simp [Fails, Except.map]

theorem bind_fails_iff {first : Except ε α} {next : α → Except ε β} {later : Prop}
    (same : ∀ value, Fails (next value) ↔ later) :
    Fails (first >>= next) ↔ Fails first ∨ later := by
  cases first with
  | error fault => simp [Fails, bind, Except.bind]
  | ok value => simpa [Fails, bind, Except.bind] using same value

theorem pure_fails_iff {value : α} : Fails (pure value : Except ε α) ↔ False := by
  simp [Fails, pure, Except.pure]

end Traversal

namespace Yaml.Value

/-- A value has no text only if a number in it is too long or it goes too deep. -/
theorem cause_of_literalChars [Host] {collections : Collections} {fuel : Nat} {value : Value}
    {active : List (Nat × Option Nat)} {cause : Error}
    (failed : literalChars collections active fuel value = .error cause) : cause ≠ .malformed := by
  induction fuel generalizing value active with
  | zero =>
      obtain rfl := Except.error.inj failed
      decide
  | succ fuel ih =>
      -- what is shown in a collection fails for its own reason
      have inside {items : List Value} {active : List (Nat × Option Nat)}
          (failed : items.mapM (literalChars collections active fuel) = .error cause) :
          cause ≠ .malformed := by
        obtain ⟨item, _, same⟩ := fault_of_mapM failed
        exact ih same
      cases value with
      | int value =>
          simp only [literalChars, intChars] at failed
          split at failed
          · exact absurd failed (by simp)
          · obtain rfl := Except.error.inj failed
            decide
      | list id =>
          simp only [literalChars] at failed
          split at failed
          · exact absurd failed (by simp)
          · exact inside (except_map_eq_error failed)
      | set id =>
          simp only [literalChars] at failed
          split at failed
          · exact absurd failed (by simp)
          · exact inside (except_map_eq_error failed)
      | pair owner place first second =>
          simp only [literalChars] at failed
          split at failed
          · exact absurd failed (by simp)
          · exact inside (except_map_eq_error failed)
      | dict id =>
          simp only [literalChars] at failed
          split at failed
          · exact absurd failed (by simp)
          · obtain ⟨⟨key, content⟩, _, same⟩ := fault_of_mapM (except_map_eq_error failed)
            rcases except_bind_eq_error same with early | ⟨shown, _, late⟩
            · exact ih early
            · rcases except_bind_eq_error late with second | ⟨further, _, impossible⟩
              · exact ih second
              · exact absurd impossible (by simp [pure, Except.pure])
      | null | bool _ | double _ | nan _ | text _ | bytes _ | date _ | dateTime _ =>
          exact absurd failed (by simp [literalChars])

theorem cause_of_display [Host] {collections : Collections} {value : Value} {cause : Error}
    (failed : display collections value = .error cause) : cause ≠ .malformed := by
  unfold display at failed
  split at failed
  · exact absurd failed (by simp)
  · exact absurd failed (by simp)
  · exact absurd failed (by simp)
  · exact cause_of_literalChars (except_map_eq_error failed)

end Yaml.Value

namespace Spec

open Yaml (Value Collections)

theorem ReadFault.message?_eq_none_iff {fault : ReadFault} :
    fault.message? = none ↔ ∃ cause, fault = .markup cause ∧ cause ≠ .malformed := by
  cases fault with
  | markup cause => cases cause <;> simp [message?]
  | notMapping | notList _ _ | malformedNode _ _ | edgeNotMapping _ | malformedEdge _ _
  | conflict _ _ _ _ => simp [message?]

/-- A fault with a message, and one that has an encoding. -/
def ReadFault.IsTold (fault : ReadFault) : Prop :=
  ∃ message, fault.message? = some message ∧ message.isEncodable = true

theorem ReadFault.IsTold.message?_ne_none {fault : ReadFault} (told : fault.IsTold) :
    fault.message? ≠ none := by
  obtain ⟨message, some, _⟩ := told
  simp [some]

theorem ReadFault.isTold_of_markup {cause : Yaml.Error} (spoken : (markup cause).message? ≠ none) :
    (markup cause).IsTold := by
  cases cause with
  | malformed => exact ⟨_, rfl, by simp⟩
  | _ => exact absurd rfl spoken

theorem ReadFault.isTold_conflict (index : Nat) (source condition previous : Text) :
    (conflict index source condition previous).IsTold :=
  ⟨_, rfl, by simp [Text.literal]⟩

namespace Document

variable {collections : Collections} {entries : List (Value × Value)}

theorem isEncodable_kind (value : Value) : value.kind.isEncodable = true := by
  cases value <;> exact Text.isEncodable_ofString

theorem told_of_listUnder {key : Text} {fault : ReadFault} (encodable : key.isEncodable = true)
    (failed : listUnder collections entries key = .error fault) : fault.IsTold := by
  unfold listUnder at failed
  split at failed
  · exact absurd failed (by simp)
  · exact absurd failed (by simp)
  · exact absurd failed (by simp)
  · obtain rfl := Except.error.inj failed
    exact ⟨_, rfl, by simp [encodable, isEncodable_kind]⟩

theorem told_of_conditionsFrom {document : Document} {labels : Table Text} {index : Nat}
    {edges : List Entry} {fault : ReadFault}
    (failed : document.conditionsFrom labels index edges = .error fault) :
    fault.IsTold := by
  induction edges generalizing labels index with
  | nil => exact absurd failed (by simp [conditionsFrom])
  | cons entry rest ih =>
      cases entry with
      | direct source target => exact ih failed
      | branch source condition paths =>
          simp only [conditionsFrom] at failed
          split at failed
          · exact ih failed
          · split at failed
            · exact ih failed
            · obtain rfl := Except.error.inj failed
              exact ReadFault.isTold_conflict _ _ _ _

theorem message_of_greatestGeneric {labels : List Text} {fault : ReadFault}
    (failed : greatestGeneric labels = .error fault) : fault.message? = none := by
  induction labels with
  | nil => exact absurd failed (by simp [greatestGeneric])
  | cons label rest ih =>
      rw [greatestGeneric] at failed
      split at failed
      · rename_i first long
        obtain rfl := Except.error.inj failed
        unfold genericNumber at long
        split at long
        · exact absurd long (by simp)
        · split at long
          · exact absurd long (by simp)
          · obtain rfl := Except.error.inj long
            rfl
      · exact ih (except_map_eq_error failed)

theorem toGraph_breaks_iff {document : Document} :
    (∃ fault, document.toGraph = .error fault ∧ fault.message? = none) ↔
      (∃ labels, document.conditions = .ok labels) ∧
        ∃ source condition paths, .branch source condition paths ∈ document.edges ∧
          ¬ IsCountable condition := by
  cases agreed : document.conditions with
  | error fault =>
      simp [toGraph, agreed, bind, Except.bind, (told_of_conditionsFrom agreed).message?_ne_none]
  | ok labels =>
      have uncounted : (¬ ∃ number, greatestGeneric (labels.map Prod.snd) = .ok number) ↔
          ∃ source condition paths, .branch source condition paths ∈ document.edges ∧
            ¬ IsCountable condition := by
        rw [greatestGeneric_eq_ok_iff]
        constructor
        · intro some
          push Not at some
          obtain ⟨condition, member, long⟩ := some
          rcases (mem_conditionsFrom agreed).mp member with impossible | ⟨source, paths, entered⟩
          · exact absurd impossible List.not_mem_nil
          · exact ⟨source, condition, paths, entered, long⟩
        · rintro ⟨source, condition, paths, entered, long⟩ all
          exact long (all condition ((mem_conditionsFrom agreed).mpr (.inr ⟨source, paths, entered⟩)))
      rw [← uncounted]
      cases counted : greatestGeneric (labels.map Prod.snd) with
      | error fault =>
          simp [toGraph, agreed, counted, bind, Except.bind, message_of_greatestGeneric counted]
      | ok groups => simp [toGraph_of_parts agreed counted]

theorem told_of_toGraph {document : Document} {fault : ReadFault}
    (failed : document.toGraph = .error fault) (spoken : fault.message? ≠ none) : fault.IsTold := by
  rcases except_bind_eq_error failed with disagreed | ⟨labels, _, failed⟩
  · exact told_of_conditionsFrom disagreed
  · rcases except_bind_eq_error failed with uncounted | ⟨groups, _, made⟩
    · exact absurd (message_of_greatestGeneric uncounted) spoken
    · cases made

variable [Host]

def nodesUnder (collections : Collections) (entries : List (Value × Value)) :
    Except ReadFault (List Text) := do
  readNodes collections 0 (← listUnder collections entries "nodes")

def edgesUnder (collections : Collections) (entries : List (Value × Value)) :
    Except ReadFault (List Entry) := do
  readEdges collections 0 (← listUnder collections entries "edges")

theorem ofEntries_eq (collections : Collections) (entries : List (Value × Value)) :
    ofEntries collections entries = do
      let nodes ← nodesUnder collections entries
      let edges ← edgesUnder collections entries
      let fields ← readFields collections entries Config.keys
      return ⟨Config.ofEntries fields, nodes, edges⟩ := by
  rw [ofEntries, nodesUnder, edgesUnder]
  cases listUnder collections entries "nodes" with
  | error fault => rfl
  | ok nodes =>
      cases listUnder collections entries "edges" with
      | error fault => rfl
      | ok edges => rfl

theorem told_of_readNodes {index : Nat} {items : List Value} {fault : ReadFault}
    (failed : readNodes collections index items = .error fault) : fault.IsTold := by
  induction items generalizing index with
  | nil => exact absurd failed (by simp [readNodes])
  | cons item rest ih =>
      rw [readNodes] at failed
      split at failed
      · obtain rfl := Except.error.inj failed
        exact ⟨_, rfl, by simp⟩
      · exact ih (except_map_eq_error failed)

theorem told_of_readEdges {index : Nat} {items : List Value} {fault : ReadFault}
    (failed : readEdges collections index items = .error fault) : fault.IsTold := by
  induction items generalizing index with
  | nil => exact absurd failed (by simp [readEdges])
  | cons item rest ih =>
      rw [readEdges] at failed
      split at failed
      · rename_i first here
        obtain rfl := Except.error.inj failed
        unfold readEdge at here
        split at here
        · rename_i id
          cases found : (if isBranch (collections.entriesOf id) then
              Parts.branchEntry collections (collections.entriesOf id)
            else Parts.directEntry collections (collections.entriesOf id)) with
          | ok entry => simp [found, Except.mapError] at here
          | error issues =>
              simp only [found, Except.mapError, Except.error.injEq] at here
              rw [← here]
              exact ⟨_, rfl, by simp⟩
        · obtain rfl := Except.error.inj here
          exact ⟨_, rfl, by simp⟩
      · exact ih (except_map_eq_error failed)

theorem told_of_nodesUnder {fault : ReadFault}
    (failed : nodesUnder collections entries = .error fault) : fault.IsTold := by
  rcases except_bind_eq_error failed with unlisted | ⟨items, _, unread⟩
  · exact told_of_listUnder (by simp) unlisted
  · exact told_of_readNodes unread

theorem told_of_edgesUnder {fault : ReadFault}
    (failed : edgesUnder collections entries = .error fault) : fault.IsTold := by
  rcases except_bind_eq_error failed with unlisted | ⟨items, _, unread⟩
  · exact told_of_listUnder (by simp) unlisted
  · exact told_of_readEdges unread

/-- One of the naming fields has a value without a text. -/
def Unnamed (collections : Collections) (entries : List (Value × Value)) (keys : List Text) : Prop :=
  ∃ key ∈ keys, ∃ value cause, Value.fieldOf? key entries = some value ∧
    Value.display collections value = .error cause

theorem readFields_fails_iff {keys : List Text} :
    Fails (readFields collections entries keys) ↔ Unnamed collections entries keys := by
  induction keys with
  | nil => simp [readFields, Unnamed, Fails]
  | cons key rest ih =>
      have split : Unnamed collections entries (key :: rest) ↔
          (∃ value cause, Value.fieldOf? key entries = some value ∧
            Value.display collections value = .error cause) ∨ Unnamed collections entries rest := by
        simp [Unnamed]
      rw [readFields, split, ← ih]
      split
      · rename_i held
        simp [held, Fails]
      · rename_i held
        have shown : Value.display collections .null = .ok "None" := rfl
        simp [held, shown, Fails]
      · rename_i held
        have shown : Value.display collections (.text ⟨[]⟩) = .ok ⟨[]⟩ := rfl
        simp [held, shown, Fails]
      · rename_i value _ _ held
        cases shown : Value.display collections value with
        | error cause => simp [held, shown, Fails]
        | ok text => simp [held, shown, map_fails_iff]

theorem message_of_readFields {keys : List Text} {fault : ReadFault}
    (failed : readFields collections entries keys = .error fault) : fault.message? = none := by
  induction keys with
  | nil => exact absurd failed (by simp [readFields])
  | cons key rest ih =>
      rw [readFields] at failed
      split at failed
      · exact ih failed
      · exact ih failed
      · exact ih failed
      · split at failed
        · rename_i cause shown
          obtain rfl := Except.error.inj failed
          exact ReadFault.message?_eq_none_iff.mpr ⟨cause, rfl, Value.cause_of_display shown⟩
        · exact ih (except_map_eq_error failed)

theorem ofEntries_breaks_iff :
    (∃ fault, ofEntries collections entries = .error fault ∧ fault.message? = none) ↔
      (∃ nodes, nodesUnder collections entries = .ok nodes) ∧
        (∃ edges, edgesUnder collections entries = .ok edges) ∧
        Unnamed collections entries Config.keys := by
  rw [ofEntries_eq, ← readFields_fails_iff]
  cases nodes : nodesUnder collections entries with
  | error fault => simp [bind, Except.bind, (told_of_nodesUnder nodes).message?_ne_none]
  | ok names =>
      cases edges : edgesUnder collections entries with
      | error fault => simp [bind, Except.bind, (told_of_edgesUnder edges).message?_ne_none]
      | ok list =>
          cases fields : readFields collections entries Config.keys with
          | error fault => simp [bind, Except.bind, message_of_readFields fields, Fails]
          | ok table => simp [bind, Except.bind, pure, Except.pure, Fails]

theorem told_of_ofEntries {fault : ReadFault}
    (failed : ofEntries collections entries = .error fault) (spoken : fault.message? ≠ none) :
    fault.IsTold := by
  rw [ofEntries_eq] at failed
  rcases except_bind_eq_error failed with unnamed | ⟨nodes, _, failed⟩
  · exact told_of_nodesUnder unnamed
  · rcases except_bind_eq_error failed with unlinked | ⟨edges, _, failed⟩
    · exact told_of_edgesUnder unlinked
    · rcases except_bind_eq_error failed with unread | ⟨fields, _, made⟩
      · exact absurd (message_of_readFields unread) spoken
      · cases made

theorem told_of_parse {text : Text} {fault : ReadFault} (failed : parse text = .error fault)
    (spoken : fault.message? ≠ none) : fault.IsTold := by
  unfold parse at failed
  split at failed
  · obtain rfl := Except.error.inj failed
    exact ReadFault.isTold_of_markup spoken
  · unfold ofValue at failed
    split at failed
    · exact told_of_ofEntries failed spoken
    · obtain rfl := Except.error.inj failed
      exact ⟨_, rfl, by simp⟩

end Document

/-- Texts that fail for no reason that their author would be told. -/
inductive BreaksReading [Host] (text : Text) : Prop
  /-- The markup has the form of a value that does not exist. -/
  | markup {cause : Yaml.Error} (loaded : Yaml.load text = .error cause) (other : cause ≠ .malformed)
  /-- Steps and edges can be read, but a naming field has a value without a text. -/
  | field {id : Nat} {collections : Collections} {nodes : List Text} {edges : List Entry}
      (loaded : Yaml.load text = .ok (.dict id, collections))
      (named : Document.nodesUnder collections (collections.entriesOf id) = .ok nodes)
      (linked : Document.edgesUnder collections (collections.entriesOf id) = .ok edges)
      (unnamed : Document.Unnamed collections (collections.entriesOf id) Config.keys)
  /-- A condition has the form of a generic label, with a number that is too long. -/
  | label {document : Document} {labels : Table Text} {source condition : Text}
      {paths : List Text} (read : Document.parse text = .ok document)
      (agreed : document.conditions = .ok labels)
      (entered : .branch source condition paths ∈ document.edges)
      (long : ¬ Document.IsCountable condition)

end Spec

variable [Host]

theorem Graph.decode_breaks_iff {text : Text} :
    (∃ fault, decode text = .error fault ∧ fault.message? = none) ↔ Spec.BreaksReading text := by
  constructor
  · rintro ⟨fault, failed, silent⟩
    unfold decode at failed
    split at failed
    · rename_i first unread
      obtain rfl := Except.error.inj failed
      unfold Spec.Document.parse at unread
      split at unread
      · rename_i cause loaded
        obtain rfl := Except.error.inj unread
        obtain ⟨_, same, other⟩ := Spec.ReadFault.message?_eq_none_iff.mp silent
        obtain rfl := Spec.ReadFault.markup.inj same
        exact .markup loaded other
      · rename_i value collections loaded
        unfold Spec.Document.ofValue at unread
        split at unread
        · obtain ⟨⟨nodes, named⟩, ⟨edges, linked⟩, unnamed⟩ :=
            Spec.Document.ofEntries_breaks_iff.mp ⟨_, unread, silent⟩
          exact .field loaded named linked unnamed
        · obtain rfl := Except.error.inj unread
          exact absurd silent (by simp [Spec.ReadFault.message?])
    · rename_i document read
      obtain ⟨⟨labels, agreed⟩, source, condition, paths, entered, long⟩ :=
        Spec.Document.toGraph_breaks_iff.mp ⟨fault, failed, silent⟩
      exact .label read agreed entered long
  · intro broken
    cases broken with
    | markup loaded other =>
        refine ⟨.markup _, ?_, Spec.ReadFault.message?_eq_none_iff.mpr ⟨_, rfl, other⟩⟩
        simp only [decode, Spec.Document.parse, loaded]
    | field loaded named linked unnamed =>
        obtain ⟨fault, failed, silent⟩ :=
          Spec.Document.ofEntries_breaks_iff.mpr ⟨⟨_, named⟩, ⟨_, linked⟩, unnamed⟩
        refine ⟨fault, ?_, silent⟩
        simp only [decode, Spec.Document.parse, loaded, Spec.Document.ofValue, failed]
    | label read agreed entered long =>
        obtain ⟨fault, failed, silent⟩ :=
          Spec.Document.toGraph_breaks_iff.mpr ⟨⟨_, agreed⟩, _, _, _, entered, long⟩
        refine ⟨fault, ?_, silent⟩
        simp only [decode, read, failed]

theorem Graph.told_of_decode {text : Text} {fault : Spec.ReadFault}
    (failed : decode text = .error fault) (spoken : fault.message? ≠ none) : fault.IsTold := by
  unfold decode at failed
  split at failed
  · rename_i cause unread
    obtain rfl := Except.error.inj failed
    exact Spec.Document.told_of_parse unread spoken
  · exact Spec.Document.told_of_toGraph failed spoken

namespace Spec

/-- Texts that are tried as plain scalars and have the form of a value that does not exist. -/
def Scalar.Breaks (flow : Bool) (value : Text) : Prop :=
  Text.trimBlanks value = value ∧ (flow = true → ∀ c ∈ value.chars, c ∉ flowMarks) ∧
    ∃ cause, Yaml.load value = .error cause ∧ cause ≠ .malformed

theorem Scalar.readsBack_fails_iff {value : Text} :
    Fails (readsBack value) ↔ ∃ cause, Yaml.load value = .error cause ∧ cause ≠ .malformed := by
  unfold readsBack Fails
  split
  · rename_i loaded
    simp [loaded]
  · rename_i loaded
    simp [loaded]
  · rename_i loaded
    simp [loaded]
  · rename_i cause other loaded
    simp only [loaded, Except.error.injEq, exists_eq', true_iff]
    exact ⟨cause, rfl, other⟩

theorem Scalar.write_fails_iff {flow : Bool} {value : Text} :
    Fails (write flow value) ↔ Breaks flow value := by
  have marked : (flow && value.chars.any flowMarks.contains) = false ↔
      (flow = true → ∀ c ∈ value.chars, c ∉ flowMarks) := by
    cases flow <;> simp
  rw [write, map_fails_iff, needsQuotes, Breaks, ← marked]
  split
  · rename_i quoted
    simp only [Bool.or_eq_true, bne_iff_ne] at quoted
    simp only [Fails, reduceCtorEq, exists_false, false_iff]
    rintro ⟨trimmed, unmarked, _⟩
    rcases quoted with untrimmed | marks
    · exact untrimmed trimmed
    · exact absurd (marks.symm.trans unmarked) (by simp)
  · rename_i plain
    simp only [Bool.or_eq_true, bne_iff_ne, not_or, not_not, Bool.not_eq_true] at plain
    rw [map_fails_iff, readsBack_fails_iff]
    simp [plain]

/-- The texts that an edge is written with, and whether each is inside a flow sequence. -/
def Entry.scalars : Entry → List (Bool × Text)
  | .direct source target => [(false, source), (false, target)]
  | .branch source condition paths =>
    (false, source) :: (false, condition) :: paths.map fun path => (true, path)

theorem Entry.lines_fails_iff {entry : Entry} :
    Fails entry.lines ↔ ∃ scalar ∈ entry.scalars, Scalar.Breaks scalar.1 scalar.2 := by
  cases entry with
  | direct source target =>
      rw [lines, bind_fails_iff fun _ => bind_fails_iff fun _ => pure_fails_iff,
        Scalar.write_fails_iff, Scalar.write_fails_iff]
      simp [scalars]
  | branch source condition paths =>
      rw [lines, bind_fails_iff fun _ => bind_fails_iff fun _ => bind_fails_iff fun _ => pure_fails_iff,
        Scalar.write_fails_iff, mapM_fails_iff, Scalar.write_fails_iff]
      simp only [scalars, List.exists_mem_cons_iff, List.mem_map, Scalar.write_fails_iff, or_false]
      constructor
      · rintro (first | ⟨path, member, broken⟩ | second)
        · exact .inl first
        · exact .inr (.inr ⟨_, ⟨path, member, rfl⟩, broken⟩)
        · exact .inr (.inl second)
      · rintro (first | second | ⟨_, ⟨path, member, rfl⟩, broken⟩)
        · exact .inl first
        · exact .inr (.inr second)
        · exact .inr (.inl ⟨path, member, broken⟩)

namespace Document

/-- All texts that a specification is written with. -/
def scalars (document : Document) : List (Bool × Text) :=
  document.config.entries.map (fun field => (false, field.2)) ++
    document.nodes.map (fun name => (false, name)) ++ document.edges.flatMap Entry.scalars

theorem text_fails_iff {document : Document} {language : Option Text} :
    Fails (document.text language) ↔
      ∃ scalar ∈ document.scalars, Scalar.Breaks scalar.1 scalar.2 := by
  have fields : Fails (document.config.entries.mapM fieldLine) ↔
      ∃ scalar ∈ document.config.entries.map (fun field => (false, field.2)),
        Scalar.Breaks scalar.1 scalar.2 := by
    simp only [mapM_fails_iff, fieldLine, map_fails_iff, Scalar.write_fails_iff, List.mem_map,
      exists_exists_and_eq_and]
  have nodes : Fails (document.nodes.mapM nodeLine) ↔
      ∃ scalar ∈ document.nodes.map (fun name => (false, name)),
        Scalar.Breaks scalar.1 scalar.2 := by
    simp only [mapM_fails_iff, nodeLine, map_fails_iff, Scalar.write_fails_iff, List.mem_map,
      exists_exists_and_eq_and]
  have edges : Fails (document.edges.mapM Entry.lines) ↔
      ∃ scalar ∈ document.edges.flatMap Entry.scalars, Scalar.Breaks scalar.1 scalar.2 := by
    rw [mapM_fails_iff]
    constructor
    · rintro ⟨entry, member, failed⟩
      obtain ⟨scalar, inside, broken⟩ := Entry.lines_fails_iff.mp failed
      exact ⟨scalar, List.mem_flatMap.mpr ⟨entry, member, inside⟩, broken⟩
    · rintro ⟨scalar, inside, broken⟩
      obtain ⟨entry, member, own⟩ := List.mem_flatMap.mp inside
      exact ⟨entry, member, Entry.lines_fails_iff.mpr ⟨scalar, own, broken⟩⟩
  rw [text, map_fails_iff, body,
    bind_fails_iff fun _ => bind_fails_iff fun _ => bind_fails_iff fun _ => pure_fails_iff,
    fields, nodes, edges]
  simp only [scalars, List.mem_append, or_false, or_and_right, exists_or, or_assoc]

end Document

end Spec

/-- Graphs of a good shape with a text that cannot be tried as a scalar. -/
def Graph.BreaksWriting (graph : Graph) (config : Spec.Config) : Prop :=
  ∃ document, graph.toDocument config = .ok document ∧
    ∃ scalar ∈ document.scalars, Spec.Scalar.Breaks scalar.1 scalar.2

theorem Graph.encode_breaks_iff {graph : Graph} {config : Spec.Config} {language : Option Text} :
    (∃ cause, graph.encode config language = .error (.markup cause)) ↔
      graph.BreaksWriting config := by
  rw [encode, BreaksWriting]
  cases made : graph.toDocument config with
  | error violation => simp
  | ok document =>
      have broken : Fails (document.text language) ↔ _ := Spec.Document.text_fails_iff
      simp only [Except.ok.injEq, exists_eq_left']
      rw [← broken]
      cases document.text language with
      | error cause => simp [Fails, Except.mapError]
      | ok text => simp [Fails, Except.mapError]

end Workflow
