import Workflow.Proofs.Yaml.NodeText
import Workflow.Proofs.Yaml.ShownText

/-! How the values of a document are nested. A collection is known by one value from the moment it is met,
and it is filled after the kind of this value: sets with keys, and only lists with pairs. -/

namespace Workflow.Yaml

namespace Value

theorem isKey_of_map {α : Type} {found : Except Error α} {make : α → Value} {value : Value}
    (keys : ∀ content, (make content).isKey = true) (read : found.map make = .ok value) :
    value.isKey = true := by
  obtain ⟨content, _, rfl⟩ := except_map_eq_ok read
  exact keys content

theorem isKey_of_ofScalar {node : Nat} {tag : Tag} {text : Text} {value : Value}
    (read : ofScalar node tag text = .ok value) : value.isKey = true := by
  cases tag with
  | null =>
      obtain rfl := Except.ok.inj read
      rfl
  | str =>
      obtain rfl := Except.ok.inj read
      rfl
  | bool =>
      simp only [ofScalar, readTruth] at read
      split at read
      · obtain rfl := Except.ok.inj read
        rfl
      · cases read
  | int =>
      simp only [ofScalar, readInt] at read
      split at read
      · cases read
      · exact isKey_of_map (fun _ => rfl) read
  | float =>
      simp only [ofScalar, readDouble] at read
      split at read
      · cases read
      · exact isKey_of_map (fun _ => by split <;> rfl) read
  | binary => exact isKey_of_map (fun _ => rfl) read
  | timestamp =>
      simp only [ofScalar, readTimestamp] at read
      split at read
      · cases read
      · simp only [ofStamp] at read
        split at read <;> split at read <;> cases read <;> rfl
  | _ => cases read

section

variable {K V : Value → Prop} {entries table : List (Value × Value)}

theorem forall_putEntry {key value : Value} (keyHolds : K key) (valueHolds : V value)
    (each : ∀ entry ∈ entries, K entry.1 ∧ V entry.2) :
    ∀ entry ∈ putEntry key value entries, K entry.1 ∧ V entry.2 := by
  induction entries with
  | nil => exact List.forall_mem_singleton.mpr ⟨keyHolds, valueHolds⟩
  | cons head rest ih =>
      obtain ⟨here, later⟩ := List.forall_mem_cons.mp each
      rw [putEntry]
      split
      · exact List.forall_mem_cons.mpr ⟨⟨here.1, valueHolds⟩, later⟩
      · exact List.forall_mem_cons.mpr ⟨here, ih later⟩

theorem forall_foldl_putEntry (each : ∀ entry ∈ entries, K entry.1 ∧ V entry.2)
    (before : ∀ entry ∈ table, K entry.1 ∧ V entry.2) :
    ∀ entry ∈ entries.foldl (fun table (key, value) => putEntry key value table) table,
      K entry.1 ∧ V entry.2 := by
  induction entries generalizing table with
  | nil => exact before
  | cons head rest ih =>
      obtain ⟨here, later⟩ := List.forall_mem_cons.mp each
      exact ih later (forall_putEntry here.1 here.2 before)

theorem forall_ofEntries (each : ∀ entry ∈ entries, K entry.1 ∧ V entry.2) :
    ∀ entry ∈ ofEntries entries, K entry.1 ∧ V entry.2 :=
  forall_foldl_putEntry each fun _ none => absurd none List.not_mem_nil

end

end Value

namespace Assembly

open Assembling (reference)

variable {before between after : Assembly} {value : Value}

/-- A value as it can be held: a key, or the collection that is known by it. -/
def Knows (assembly : Assembly) (value : Value) : Prop :=
  value.isKey = true ∨
    ∃ id tag, value = reference tag id ∧ assembly.known.lookup id = some value

def KnowsItem (assembly : Assembly) : Value → Prop
  | .pair _ _ first second => assembly.Knows first ∧ assembly.Knows second
  | value => assembly.Knows value

/-- A collection is known by the value that its tag asks for. -/
def KnowsNode (assembly : Assembly) : Node → Prop
  | .sequence id tag _ | .mapping id tag _ => assembly.known.lookup id = some (reference tag id)
  | _ => True

/-- An item for the list of a number, or for the set. -/
def Holds (assembly : Assembly) (id : Nat) (item : Value) : Prop :=
  assembly.KnowsItem item ∧ (assembly.known.lookup id = some (.list id) ∨
    assembly.known.lookup id = some (.set id) ∧ item.isKey = true)

structure Sound (assembly : Assembly) : Prop where
  known : ∀ id value, assembly.known.lookup id = some value →
    value.isKey = true ∨ ∃ tag, value = reference tag id
  waiting : ∀ node ∈ assembly.waiting, assembly.KnowsNode node
  items : ∀ id, ∀ item ∈ assembly.collections.itemsOf id, assembly.Holds id item
  entries : ∀ id, ∀ entry ∈ assembly.collections.entriesOf id,
    entry.1.isKey = true ∧ assembly.Knows entry.2

def Extends (before after : Assembly) : Prop :=
  ∀ id value, before.known.lookup id = some value → after.known.lookup id = some value

/-- A step of reading, after which the assembly is sound and all that was known still is. -/
structure Grows (before after : Assembly) : Prop where
  sound : after.Sound
  more : before.Extends after

theorem Sound.grows (sound : before.Sound) : before.Grows before := ⟨sound, fun _ _ known => known⟩

theorem Grows.trans (first : before.Grows between) (second : between.Grows after) :
    before.Grows after :=
  ⟨second.sound, fun id value known => second.more id value (first.more id value known)⟩

theorem Knows.mono (knows : before.Knows value) (more : before.Extends after) :
    after.Knows value :=
  knows.imp_right fun ⟨id, tag, same, known⟩ => ⟨id, tag, same, more id value known⟩

theorem KnowsItem.mono (knows : before.KnowsItem value) (more : before.Extends after) :
    after.KnowsItem value := by
  cases value with
  | pair owner place first second => exact ⟨knows.1.mono more, knows.2.mono more⟩
  | _ => exact Knows.mono knows more

theorem KnowsNode.mono {node : Node} (knows : before.KnowsNode node) (more : before.Extends after) :
    after.KnowsNode node := by
  cases node with
  | sequence id tag items => exact more _ _ knows
  | mapping id tag entries => exact more _ _ knows
  | _ => trivial

theorem Holds.mono {id : Nat} (holds : before.Holds id value) (more : before.Extends after) :
    after.Holds id value :=
  ⟨holds.1.mono more, holds.2.imp (more _ _) fun ⟨set, key⟩ => ⟨more _ _ set, key⟩⟩

/-- More is known, and nothing is held that was not. -/
theorem Sound.known_more (sound : before.Sound) (more : before.Extends after)
    (known : ∀ id value, after.known.lookup id = some value →
      value.isKey = true ∨ ∃ tag, value = reference tag id)
    (waiting : ∀ node ∈ after.waiting, after.KnowsNode node)
    (same : after.collections = before.collections) : before.Grows after := by
  refine ⟨⟨known, waiting, ?_, ?_⟩, more⟩
  · rw [same]
    exact fun id item member => (sound.items id item member).mono more
  · rw [same]
    intro id entry member
    obtain ⟨key, knows⟩ := sound.entries id entry member
    exact ⟨key, knows.mono more⟩

theorem Sound.revised (sound : before.Sound) (revision : Revision) {waiting : List Node}
    (still : ∀ node ∈ waiting, node ∈ before.waiting) :
    before.Grows { before with revision := revision, waiting := waiting } :=
  sound.known_more (fun _ _ known => known) sound.known
    (fun node member => (sound.waiting node (still node member)).mono fun _ _ known => known) rfl

theorem Sound.filled (sound : before.Sound) {collections : Collections}
    (items : ∀ id, ∀ item ∈ collections.itemsOf id, before.Holds id item)
    (entries : ∀ id, ∀ entry ∈ collections.entriesOf id,
      entry.1.isKey = true ∧ before.Knows entry.2) :
    before.Grows { before with collections := collections } := by
  have same : before.Extends { before with collections := collections } := fun _ _ known => known
  exact ⟨⟨sound.known, fun node member => (sound.waiting node member).mono same,
    fun id item member => (items id item member).mono same, entries⟩, same⟩

end Assembly

namespace Assembling

variable {before after : Assembly} {value : Value} {node : Node}

theorem tagOf_eq (revision : Revision) (node : Node) :
    revision.tagOf node = (revision.document.resolve node).tag ∨ revision.tagOf node = .str := by
  rw [Revision.tagOf]
  split
  · exact .inr rfl
  · exact .inl rfl

theorem isKey_of_ofText {revision : Revision} {tag : Tag}
    (read : ofText revision tag node = .ok value) : value.isKey = true := by
  unfold ofText at read
  split at read
  · cases read
  · split at read
    · cases read
    · exact Value.isKey_of_ofScalar read

/-- What comes of meeting a node: it was met before, it is a collection, or it has a text. -/
inductive Meets (before : Assembly) (node : Node) : Value → Assembly → Prop where
  | known {value : Value} (found : before.known.lookup node.id = some value) :
    Meets before node value before
  | collection (new : before.known.lookup node.id = none)
    (collects : (before.revision.tagOf node).isCollection = true) :
    Meets before node (reference (before.revision.tagOf node) node.id)
      { before with
        known := (node.id, reference (before.revision.tagOf node) node.id) :: before.known
        waiting := node :: before.waiting }
  | scalar {value : Value} (key : value.isKey = true) : Meets before node value before
  | text {value : Value} (new : before.known.lookup node.id = none) (key : value.isKey = true) :
    Meets before node value { before with known := (node.id, value) :: before.known }

theorem meets_of_value (run : Assembling.value node before = .ok (value, after)) :
    Meets before (before.revision.document.resolve node) value after := by
  obtain ⟨_, _, got, run⟩ := bind_eq_ok.mp run
  obtain ⟨rfl, rfl⟩ := Prod.mk.inj (Except.ok.inj got)
  generalize before.revision.document.resolve node = met at run
  cases known : before.known.lookup met.id with
  | some value =>
      simp only [known] at run
      obtain ⟨rfl, rfl⟩ := Prod.mk.inj (Except.ok.inj run)
      exact .known known
  | none =>
      simp only [known] at run
      split at run
      · rename_i collects
        obtain ⟨rfl, rfl⟩ := Prod.mk.inj (Except.ok.inj run)
        exact .collection known collects
      · split at run
        · obtain ⟨found, between, lifted, ended⟩ := bind_eq_ok.mp run
          obtain ⟨read, rfl⟩ := lift_eq_ok.mp lifted
          have key := isKey_of_ofText read
          split at ended
          · obtain ⟨rfl, rfl⟩ := Prod.mk.inj (Except.ok.inj ended)
            exact .scalar key
          · obtain ⟨rfl, rfl⟩ := Prod.mk.inj (Except.ok.inj ended)
            exact .text known key
        · cases run

theorem extends_of_new {id : Nat} {waiting : List Node} (new : before.known.lookup id = none)
    (value : Value) :
    before.Extends { before with known := (id, value) :: before.known, waiting := waiting } := by
  intro other held known
  have different : other ≠ id := by
    rintro rfl
    rw [new] at known
    cases known
  rw [List.lookup_cons, beq_false_of_ne different]
  exact known

theorem known_of_new {id : Nat} {waiting : List Node} (sound : before.Sound)
    (new : value.isKey = true ∨ ∃ tag, value = reference tag id) :
    ∀ other held, ({ before with known := (id, value) :: before.known, waiting := waiting } :
      Assembly).known.lookup other = some held →
        held.isKey = true ∨ ∃ tag, held = reference tag other := by
  intro other held known
  rw [List.lookup_cons] at known
  split at known
  · rename_i same
    obtain rfl := beq_iff_eq.mp same
    obtain rfl := Option.some.inj known
    exact new
  · exact sound.known other held known

theorem knowsNode_of_collection {revision : Revision}
    (collects : (revision.tagOf node).isCollection = true)
    (known : before.known.lookup node.id = some (reference (revision.tagOf node) node.id)) :
    before.KnowsNode node := by
  have same : revision.tagOf node = (revision.document.resolve node).tag := by
    refine (tagOf_eq revision node).resolve_right fun text => ?_
    rw [text] at collects
    cases collects
  cases node with
  | sequence id tag items =>
      rw [same] at known
      exact known
  | mapping id tag entries =>
      rw [same] at known
      exact known
  | _ => trivial

theorem grows_of_meets (sound : before.Sound) (meets : Meets before node value after) :
    before.Grows after ∧ after.Knows value := by
  cases meets with
  | known found =>
      refine ⟨sound.grows, ?_⟩
      rcases sound.known _ _ found with key | ⟨tag, rfl⟩
      · exact .inl key
      · exact .inr ⟨_, tag, rfl, found⟩
  | scalar key => exact ⟨sound.grows, .inl key⟩
  | text new key =>
      have more := @extends_of_new before node.id before.waiting new value
      exact ⟨sound.known_more more (known_of_new sound (.inl key))
        (fun other member => (sound.waiting other member).mono more) rfl, .inl key⟩
  | collection new collects =>
      have more := @extends_of_new before node.id (node :: before.waiting) new
        (reference (before.revision.tagOf node) node.id)
      refine ⟨sound.known_more more (known_of_new sound (.inr ⟨_, rfl⟩)) ?_ rfl,
        .inr ⟨_, _, rfl, List.lookup_cons_self⟩⟩
      refine List.forall_mem_cons.mpr ⟨knowsNode_of_collection collects List.lookup_cons_self, ?_⟩
      exact fun other member => (sound.waiting other member).mono more

theorem grows_of_value (sound : before.Sound)
    (run : Assembling.value node before = .ok (value, after)) :
    before.Grows after ∧ after.Knows value :=
  grows_of_meets sound (meets_of_value run)

theorem grows_of_key (sound : before.Sound)
    (run : Assembling.key node before = .ok (value, after)) :
    before.Grows after ∧ value.isKey = true := by
  obtain ⟨found, between, met, ended⟩ := bind_eq_ok.mp run
  obtain ⟨grows, _⟩ := grows_of_value sound met
  split at ended
  · rename_i key
    obtain ⟨rfl, rfl⟩ := Prod.mk.inj (Except.ok.inj ended)
    exact ⟨grows, key⟩
  · cases ended

theorem grows_of_field {entry : Node × Node} {field : Value × Value} (sound : before.Sound)
    (run : Assembling.field entry before = .ok (field, after)) :
    before.Grows after ∧ field.1.isKey = true ∧ after.Knows field.2 := by
  obtain ⟨key, between, first, rest⟩ := bind_eq_ok.mp run
  obtain ⟨content, last, second, ended⟩ := bind_eq_ok.mp rest
  obtain ⟨rfl, rfl⟩ := Prod.mk.inj (Except.ok.inj ended)
  obtain ⟨early, isKey⟩ := grows_of_key sound first
  obtain ⟨late, knows⟩ := grows_of_value early.sound second
  exact ⟨early.trans late, isKey, knows⟩

theorem grows_of_pair {list place : Nat} (sound : before.Sound)
    (run : pair list place node before = .ok (value, after)) :
    before.Grows after ∧ after.KnowsItem value := by
  obtain ⟨_, _, got, rest⟩ := bind_eq_ok.mp run
  obtain ⟨rfl, rfl⟩ := Prod.mk.inj (Except.ok.inj got)
  generalize before.revision.entries? node = entries at rest
  rcases entries with _ | _ | ⟨⟨key, content⟩, _ | _⟩
  · cases rest
  · cases rest
  · obtain ⟨first, between, early, rest⟩ := bind_eq_ok.mp rest
    obtain ⟨second, last, late, ended⟩ := bind_eq_ok.mp rest
    obtain ⟨rfl, rfl⟩ := Prod.mk.inj (Except.ok.inj ended)
    obtain ⟨opened, knowsFirst⟩ := grows_of_value sound early
    obtain ⟨closed, knowsSecond⟩ := grows_of_value opened.sound late
    exact ⟨opened.trans closed, knowsFirst.mono closed.more, knowsSecond⟩
  · cases rest

section

variable {α β : Type} {step : α → Assembling β} {list : List α} {results : List β}

theorem grows_of_mapM (Good : Assembly → β → Prop)
    (mono : ∀ {early late : Assembly} {result : β}, Good early result → early.Extends late →
      Good late result)
    (each : ∀ {item : α} {early late : Assembly} {result : β}, early.Sound →
      step item early = .ok (result, late) → early.Grows late ∧ Good late result)
    (sound : before.Sound) (run : list.mapM step before = .ok (results, after)) :
    before.Grows after ∧ ∀ result ∈ results, Good after result := by
  induction list generalizing before results with
  | nil =>
      obtain ⟨rfl, rfl⟩ := Prod.mk.inj (Except.ok.inj run)
      exact ⟨sound.grows, fun _ none => absurd none List.not_mem_nil⟩
  | cons item rest ih =>
      rw [List.mapM_cons] at run
      obtain ⟨result, between, first, others⟩ := bind_eq_ok.mp run
      obtain ⟨more, last, later, ended⟩ := bind_eq_ok.mp others
      obtain ⟨rfl, rfl⟩ := Prod.mk.inj (Except.ok.inj ended)
      obtain ⟨early, good⟩ := each sound first
      obtain ⟨late, goods⟩ := ih early.sound later
      exact ⟨early.trans late, List.forall_mem_cons.mpr ⟨mono good late.more, goods⟩⟩

end

theorem grows_of_fields {id : Nat} {written : List (Node × Node)} {entries : List (Value × Value)}
    (sound : before.Sound) (run : Assembling.fields id written before = .ok (entries, after)) :
    before.Grows after ∧ ∀ entry ∈ entries, entry.1.isKey = true ∧ after.Knows entry.2 := by
  obtain ⟨_, _, got, rest⟩ := bind_eq_ok.mp run
  obtain ⟨rfl, rfl⟩ := Prod.mk.inj (Except.ok.inj got)
  obtain ⟨revision, _, lifted, rest⟩ := bind_eq_ok.mp rest
  obtain ⟨_, rfl⟩ := lift_eq_ok.mp lifted
  obtain ⟨_, revised, wrote, rest⟩ := bind_eq_ok.mp rest
  obtain ⟨_, rfl⟩ := Prod.mk.inj (Except.ok.inj wrote)
  obtain ⟨found, last, mapped, ended⟩ := bind_eq_ok.mp rest
  obtain ⟨rfl, rfl⟩ := Prod.mk.inj (Except.ok.inj ended)
  have revised := sound.revised revision fun _ member => member
  obtain ⟨grows, fields⟩ := grows_of_mapM
    (fun assembly field => field.1.isKey = true ∧ assembly.Knows field.2)
    (fun ⟨key, knows⟩ more => ⟨key, knows.mono more⟩) grows_of_field revised.sound mapped
  exact ⟨revised.trans grows,
    @Value.forall_ofEntries (fun key => key.isKey = true) last.Knows found fields⟩

theorem grows_putItems {id : Nat} {items : List Value} (sound : before.Sound)
    (held : ∀ item ∈ items, before.Holds id item) :
    before.Grows { before with collections := before.collections.putItems id items } := by
  refine sound.filled (fun other item member => ?_) sound.entries
  by_cases same : other = id
  · subst other
    rw [Collections.itemsOf_putItems_self] at member
    exact held item member
  · rw [Collections.itemsOf_putItems_of_ne same] at member
    exact sound.items other item member

theorem grows_putEntries {id : Nat} {entries : List (Value × Value)} (sound : before.Sound)
    (held : ∀ entry ∈ entries, entry.1.isKey = true ∧ before.Knows entry.2) :
    before.Grows { before with collections := before.collections.putEntries id entries } := by
  refine sound.filled sound.items fun other entry member => ?_
  by_cases same : other = id
  · subst other
    rw [Collections.entriesOf_putEntries_self] at member
    exact held entry member
  · rw [Collections.entriesOf_putEntries_of_ne same] at member
    exact sound.entries other entry member

theorem knowsItem_of_knows (knows : before.Knows value) : before.KnowsItem value := by
  cases value with
  | pair _ _ _ _ =>
      rcases knows with key | ⟨id, tag, same, _⟩
      · cases key
      · cases tag <;> cases same
  | _ => exact knows

theorem grows_of_fill (sound : before.Sound) (knows : before.KnowsNode node)
    (run : fill node before = .ok ((), after)) : before.Grows after := by
  obtain ⟨_, _, got, rest⟩ := bind_eq_ok.mp run
  obtain ⟨rfl, rfl⟩ := Prod.mk.inj (Except.ok.inj got)
  -- a tag may have become that of a text, so one that asks for a collection is still the written one
  have tags := tagOf_eq before.revision node
  generalize before.revision.tagOf node = tag at rest tags
  cases node with
  | sequence id written items =>
      cases tag with
      | seq =>
          obtain rfl : .seq = written := tags.resolve_right (by decide)
          obtain ⟨values, last, mapped, filled⟩ := bind_eq_ok.mp rest
          obtain ⟨_, rfl⟩ := Prod.mk.inj (Except.ok.inj filled)
          obtain ⟨grows, held⟩ :=
            grows_of_mapM Assembly.Knows Assembly.Knows.mono grows_of_value sound mapped
          exact grows.trans (grows_putItems grows.sound fun item member =>
            ⟨knowsItem_of_knows (held item member), .inl (grows.more _ _ knows)⟩)
      | omap | pairs =>
          obtain rfl := tags.resolve_right (by decide)
          obtain ⟨values, last, mapped, filled⟩ := bind_eq_ok.mp rest
          obtain ⟨_, rfl⟩ := Prod.mk.inj (Except.ok.inj filled)
          obtain ⟨grows, held⟩ :=
            grows_of_mapM Assembly.KnowsItem Assembly.KnowsItem.mono
              (fun early met => grows_of_pair early met) sound mapped
          exact grows.trans (grows_putItems grows.sound fun item member =>
            ⟨held item member, .inl (grows.more _ _ knows)⟩)
      | _ => cases rest
  | mapping id written entries =>
      cases tag with
      | map =>
          obtain ⟨found, last, mapped, filled⟩ := bind_eq_ok.mp rest
          obtain ⟨_, rfl⟩ := Prod.mk.inj (Except.ok.inj filled)
          obtain ⟨grows, held⟩ := grows_of_fields sound mapped
          exact grows.trans (grows_putEntries grows.sound held)
      | set =>
          obtain rfl : .set = written := tags.resolve_right (by decide)
          obtain ⟨found, last, mapped, filled⟩ := bind_eq_ok.mp rest
          obtain ⟨_, rfl⟩ := Prod.mk.inj (Except.ok.inj filled)
          obtain ⟨grows, held⟩ := grows_of_fields sound mapped
          refine grows.trans (grows_putItems grows.sound fun item member => ?_)
          obtain ⟨entry, inside, rfl⟩ := List.mem_map.mp member
          have key := (held entry inside).1
          exact ⟨knowsItem_of_knows (.inl key), .inr ⟨grows.more _ _ knows, key⟩⟩
      | _ => cases rest
  | _ => cases tag <;> cases rest

theorem grows_of_forM {nodes : List Node} (sound : before.Sound)
    (knows : ∀ node ∈ nodes, before.KnowsNode node)
    (run : nodes.forM fill before = .ok ((), after)) : before.Grows after := by
  induction nodes generalizing before with
  | nil =>
      obtain ⟨_, rfl⟩ := Prod.mk.inj (Except.ok.inj run)
      exact sound.grows
  | cons node rest ih =>
      obtain ⟨_, between, first, others⟩ := bind_eq_ok.mp run
      obtain ⟨here, later⟩ := List.forall_mem_cons.mp knows
      have early := grows_of_fill sound here first
      exact early.trans (ih early.sound (fun other member => (later other member).mono early.more)
        others)

theorem grows_of_fillLevels {fuel : Nat} {nodes : List Node} (sound : before.Sound)
    (knows : ∀ node ∈ nodes, before.KnowsNode node)
    (run : fillLevels fuel nodes before = .ok ((), after)) : before.Grows after := by
  induction fuel generalizing nodes before with
  | zero =>
      obtain ⟨_, rfl⟩ := Prod.mk.inj (Except.ok.inj run)
      exact sound.grows
  | succ fuel ih =>
      -- whatever waits is known by its tag, so the next level can be filled like this one
      cases nodes with
      | nil =>
          obtain ⟨_, rfl⟩ := Prod.mk.inj (Except.ok.inj run)
          exact sound.grows
      | cons node rest =>
          obtain ⟨_, filled, first, next⟩ := bind_eq_ok.mp run
          obtain ⟨_, _, got, next⟩ := bind_eq_ok.mp next
          obtain ⟨rfl, rfl⟩ := Prod.mk.inj (Except.ok.inj got)
          obtain ⟨_, _, taken, last⟩ := bind_eq_ok.mp next
          obtain ⟨_, rfl⟩ := Prod.mk.inj (Except.ok.inj taken)
          have grows := grows_of_forM sound knows first
          have cleared :=
            grows.sound.revised filled.revision fun _ none => absurd none List.not_mem_nil
          have further := ih cleared.sound (fun other member =>
            (grows.sound.waiting other (List.mem_reverse.mp member)).mono cleared.more) last
          exact grows.trans (cleared.trans further)

/-- A whole document is read soundly, and what it means is known in the end. -/
theorem grows_of_document {document : Document} (sound : before.Sound)
    (run : Assembling.document document before = .ok (value, after)) :
    before.Grows after ∧ after.Knows value := by
  obtain ⟨root, between, met, rest⟩ := bind_eq_ok.mp run
  obtain ⟨_, _, got, rest⟩ := bind_eq_ok.mp rest
  obtain ⟨rfl, rfl⟩ := Prod.mk.inj (Except.ok.inj got)
  obtain ⟨_, _, taken, rest⟩ := bind_eq_ok.mp rest
  obtain ⟨_, rfl⟩ := Prod.mk.inj (Except.ok.inj taken)
  obtain ⟨_, last, filled, ended⟩ := bind_eq_ok.mp rest
  obtain ⟨rfl, rfl⟩ := Prod.mk.inj (Except.ok.inj ended)
  obtain ⟨grows, knows⟩ := grows_of_value sound met
  have cleared := grows.sound.revised between.revision fun _ none => absurd none List.not_mem_nil
  have further := grows_of_fillLevels cleared.sound (fun other member =>
    (grows.sound.waiting other (List.mem_reverse.mp member)).mono cleared.more) filled
  have whole := cleared.trans further
  exact ⟨grows.trans whole, knows.mono whole.more⟩

theorem sound_start (document : Document) :
    (⟨.ofDocument document, [], [], .empty⟩ : Assembly).Sound := by
  constructor
  · intro id value known
    cases known
  · exact fun node none => absurd none List.not_mem_nil
  · exact fun id item none => absurd none List.not_mem_nil
  · exact fun id entry none => absurd none List.not_mem_nil

end Assembling

namespace Assembly

variable {assembly : Assembly} {value : Value}

theorem Sound.fits (sound : assembly.Sound) (knows : assembly.Knows value) :
    assembly.collections.Fits value := by
  rcases knows with key | ⟨id, tag, same, known⟩
  · exact Collections.fits_of_key key
  · cases value with
    | set number =>
        obtain rfl : number = id := by cases tag <;> cases same; rfl
        intro item member
        rcases (sound.items number item member).2 with list | ⟨_, key⟩
        · rw [known] at list
          cases list
        · exact key
    | pair _ _ _ _ => cases tag <;> cases same
    | _ => trivial

theorem Sound.nested (sound : assembly.Sound) : assembly.collections.Nested := by
  refine ⟨?_, fun id entry member => ?_⟩
  · intro id item member
    have knows := (sound.items id item member).1
    cases item with
    | pair owner place first second => exact ⟨sound.fits knows.1, sound.fits knows.2⟩
    | _ => exact sound.fits knows
  · obtain ⟨key, knows⟩ := sound.entries id entry member
    exact ⟨key, sound.fits knows⟩

end Assembly

/-- In what a text holds, keys are plain values, sets have only keys and only lists have pairs. -/
theorem nested_of_load [Host] {text : Text} {value : Value} {collections : Collections}
    (loaded : load text = .ok (value, collections)) :
    collections.Nested ∧ collections.Fits value := by
  unfold load at loaded
  split at loaded
  · cases loaded
  split at loaded
  · cases loaded
  · obtain ⟨rfl, rfl⟩ := Prod.mk.inj (Except.ok.inj loaded)
    exact ⟨⟨fun _ _ none => absurd none List.not_mem_nil,
      fun _ _ none => absurd none List.not_mem_nil⟩, trivial⟩
  · rename_i document _
    unfold Document.meaning at loaded
    cases ran : (Assembling.document document).run ⟨.ofDocument document, [], [], .empty⟩ with
    | error fault =>
        simp only [ran] at loaded
        cases loaded
    | ok result =>
        simp only [ran] at loaded
        obtain ⟨root, assembly⟩ := result
        obtain ⟨rfl, rfl⟩ := Prod.mk.inj (Except.ok.inj loaded)
        obtain ⟨grows, knows⟩ := Assembling.grows_of_document (Assembling.sound_start document) ran
        exact ⟨grows.sound.nested, grows.sound.fits knows⟩

end Workflow.Yaml
