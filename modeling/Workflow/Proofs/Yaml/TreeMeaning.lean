import Workflow.Proofs.Yaml.Place
import Workflow.Yaml.Load

/-! What the document of a tree means: the texts, lists and dictionaries of the tree. Collections are
filled level by level, and no number is met twice. -/

namespace Workflow.Yaml

namespace Tree

mutual

/-- What a value must be to stand for a tree. -/
def Means (collections : Collections) : Tree → Value → Prop
  | .null, value => value = .null
  | .text content _, value => value = .text (Text.ofChars content)
  | .list _ items, value => ∃ id, value = .list id ∧ ItemsMean collections items (collections.itemsOf id)
  | .dict fields, value =>
    ∃ id, value = .dict id ∧ FieldsMean collections fields (collections.entriesOf id)

def ItemsMean (collections : Collections) : List Tree → List Value → Prop
  | [], values => values = []
  | item :: rest, values =>
    ∃ value others, values = value :: others ∧ Means collections item value ∧
      ItemsMean collections rest others

def FieldsMean (collections : Collections) : List (List Char × Tree) → List (Value × Value) → Prop
  | [], entries => entries = []
  | (key, item) :: rest, entries =>
    ∃ value others, entries = (.text (Text.ofChars key), value) :: others ∧
      Means collections item value ∧ FieldsMean collections rest others

end

def isCollection : Tree → Bool
  | .list .. | .dict _ => true
  | _ => false

end Tree

namespace Assembly

variable {assembly : Assembly} {first second places : List Place}

def meet (places : List Place) (assembly : Assembly) : Assembly :=
  let met := (places.filter (·.tree.isCollection)).reverse
  { assembly with
    known := met.map (fun place => (place.id, place.value)) ++ assembly.known
    waiting := met.map Place.node ++ assembly.waiting }

theorem meet_append (first second : List Place) (assembly : Assembly) :
    (assembly.meet first).meet second = assembly.meet (first ++ second) := by
  simp [meet]

theorem mem_known_meet {entry : Nat × Value} (member : entry ∈ (assembly.meet places).known) :
    (∃ place ∈ places, entry.1 = place.id) ∨ entry ∈ assembly.known := by
  rcases List.mem_append.mp member with met | old
  · obtain ⟨place, inside, rfl⟩ := List.mem_map.mp met
    exact .inl ⟨place, (List.mem_filter.mp (List.mem_reverse.mp inside)).1, rfl⟩
  · exact .inr old

/-- Nodes that have not been met so far, with numbers of their own. -/
structure News (assembly : Assembly) (places : List Place) : Prop where
  fresh : ∀ place ∈ places, ∀ entry ∈ assembly.known, entry.1 ≠ place.id
  distinct : places.Pairwise fun first second => first.id ≠ second.id

theorem News.lookup {place : Place} (news : News assembly places) (member : place ∈ places) :
    assembly.known.lookup place.id = none := by
  apply List.lookup_eq_none_iff.mpr
  intro entry known
  exact bne_iff_ne.mpr (news.fresh place member entry known).symm

theorem News.left (news : News assembly (first ++ second)) : News assembly first :=
  ⟨fun place member => news.fresh place (List.mem_append_left _ member),
    (List.pairwise_append.mp news.distinct).1⟩

theorem News.right (news : News assembly (first ++ second)) : News (assembly.meet first) second := by
  obtain ⟨_, among, across⟩ := List.pairwise_append.mp news.distinct
  refine ⟨?_, among⟩
  intro place member entry known
  rcases mem_known_meet known with ⟨other, met, same⟩ | old
  · rw [same]
    exact across other met place member
  · exact news.fresh place (List.mem_append_right _ member) entry old

end Assembly

namespace Assembling

variable {assembly : Assembly} {document : Document}

theorem resolve_node (place : Place) : document.resolve place.node = place.node := by
  obtain ⟨id, tree⟩ := place
  cases tree <;> rfl

theorem value_of_place {place : Place} (plain : assembly.revision = .ofDocument document)
    (news : assembly.News [place]) :
    value place.node assembly = .ok (place.value, assembly.meet [place]) := by
  have fresh := news.lookup List.mem_cons_self
  obtain ⟨revision, known, waiting, collections⟩ := assembly
  obtain rfl := plain
  have resolved := @resolve_node document place
  have same : place.node.id = place.id := by
    obtain ⟨id, tree⟩ := place
    cases tree <;> rfl
  have begun : (get : Assembling Assembly) ⟨.ofDocument document, known, waiting, collections⟩ =
      .ok (⟨.ofDocument document, known, waiting, collections⟩,
        ⟨.ofDocument document, known, waiting, collections⟩) := rfl
  rw [value, bind_of_ok begun]
  simp only [Revision.ofDocument, resolved, same]
  rw [fresh]
  obtain ⟨id, tree⟩ := place
  cases tree with
  | null => rfl
  | text content isPlain => rfl
  | list flow items => rfl
  | dict fields => rfl

theorem mapM_value {places : List Place} (plain : assembly.revision = .ofDocument document)
    (news : assembly.News places) :
    (places.map Place.node).mapM value assembly =
      .ok (places.map Place.value, assembly.meet places) := by
  induction places generalizing assembly with
  | nil => rfl
  | cons place rest ih =>
      have split : place :: rest = [place] ++ rest := rfl
      rw [split] at news
      have first := value_of_place plain news.left
      have others := @ih (assembly.meet [place]) plain news.right
      rw [List.map_cons, List.mapM_cons, bind_of_ok first, bind_of_ok others, Assembly.meet_append]
      rfl

theorem field_of_places {id : Nat} {key : List Char} {item : Tree}
    (plain : assembly.revision = .ofDocument document)
    (news : assembly.News [⟨id, .text key true⟩, ⟨id + 1, item⟩]) :
    field (.scalar id .str (.ofChars key), item.node (id + 1)) assembly =
      .ok ((.text (Text.ofChars key), Place.value ⟨id + 1, item⟩),
        assembly.meet [⟨id, .text key true⟩, ⟨id + 1, item⟩]) := by
  have split : [Place.mk id (.text key true), ⟨id + 1, item⟩] =
      [⟨id, .text key true⟩] ++ [⟨id + 1, item⟩] := rfl
  rw [split] at news ⊢
  have name := value_of_place plain news.left
  have content := @value_of_place (assembly.meet [⟨id, .text key true⟩]) document _ plain news.right
  have known : Assembling.key (.scalar id .str (.ofChars key)) assembly =
      .ok (.text (Text.ofChars key), assembly.meet [⟨id, .text key true⟩]) := by
    show (value (Place.node ⟨id, .text key true⟩) >>= _) assembly = _
    rw [bind_of_ok name]
    rfl
  show (Assembling.key (.scalar id .str (.ofChars key)) >>= _) assembly = _
  rw [bind_of_ok known]
  show (value (Place.node ⟨id + 1, item⟩) >>= _) _ = _
  rw [bind_of_ok content, Assembly.meet_append]
  rfl

theorem mapM_field {fields : List (List Char × Tree)} {id : Nat}
    (plain : assembly.revision = .ofDocument document)
    (news : assembly.News (Place.ofFields id fields)) :
    (Tree.nodesOfFields id fields).mapM field assembly =
      .ok (Place.entries id fields, assembly.meet (Place.ofFields id fields)) := by
  induction fields generalizing id assembly with
  | nil => rfl
  | cons entry rest ih =>
      obtain ⟨key, item⟩ := entry
      have split : Place.ofFields id ((key, item) :: rest) =
          [⟨id, .text key true⟩, ⟨id + 1, item⟩] ++ Place.ofFields (id + 1 + item.size) rest := rfl
      rw [split] at news
      have first := field_of_places plain news.left
      have others := @ih (assembly.meet [⟨id, .text key true⟩, ⟨id + 1, item⟩]) _ plain news.right
      rw [Tree.nodesOfFields, List.mapM_cons, bind_of_ok first, bind_of_ok others,
        Assembly.meet_append, split]
      rfl

theorem putEntry_of_new {key value : Value} {entries : List (Value × Value)}
    (new : ∀ entry ∈ entries, Value.sameKey entry.1 key = false) :
    Value.putEntry key value entries = entries ++ [(key, value)] := by
  induction entries with
  | nil => rfl
  | cons entry rest ih =>
      obtain ⟨known, old⟩ := entry
      have different := new (known, old) List.mem_cons_self
      have others := ih fun other member => new other (List.mem_cons_of_mem _ member)
      simp only [Value.putEntry, different, Bool.false_eq_true, ↓reduceIte, others, List.cons_append]

theorem foldl_putEntry {entries : List (Value × Value)} (table : List (Value × Value))
    (distinct : (table ++ entries).Pairwise fun first second =>
      Value.sameKey first.1 second.1 = false) :
    entries.foldl (fun table (key, value) => Value.putEntry key value table) table =
      table ++ entries := by
  induction entries generalizing table with
  | nil => rw [List.append_nil]; rfl
  | cons entry rest ih =>
      obtain ⟨key, value⟩ := entry
      have across := (List.pairwise_append.mp distinct).2.2
      have put : Value.putEntry key value table = table ++ [(key, value)] :=
        putEntry_of_new fun known member => across known member _ List.mem_cons_self
      rw [List.append_cons] at distinct ⊢
      rw [List.foldl_cons]
      show List.foldl _ (Value.putEntry key value table) rest = _
      rw [put]
      exact ih _ distinct

theorem mem_keys_of_entries {id : Nat} {fields : List (List Char × Tree)} {entry : Value × Value}
    (member : entry ∈ Place.entries id fields) :
    ∃ key ∈ fields.map Prod.fst, entry.1 = .text (Text.ofChars key) := by
  induction fields generalizing id with
  | nil => exact absurd member List.not_mem_nil
  | cons field rest ih =>
      obtain ⟨key, item⟩ := field
      rcases List.mem_cons.mp member with rfl | later
      · exact ⟨key, List.mem_cons_self, rfl⟩
      · obtain ⟨other, inside, same⟩ := ih later
        exact ⟨other, List.mem_cons_of_mem _ inside, same⟩

theorem ofEntries_of_distinct (id : Nat) {fields : List (List Char × Tree)}
    (distinct : (fields.map Prod.fst).Nodup) :
    Value.ofEntries (Place.entries id fields) = Place.entries id fields := by
  apply foldl_putEntry []
  rw [List.nil_append]
  induction fields generalizing id with
  | nil => exact List.Pairwise.nil
  | cons field rest ih =>
      obtain ⟨key, item⟩ := field
      obtain ⟨absent, others⟩ := List.nodup_cons.mp distinct
      refine List.pairwise_cons.mpr ⟨?_, ih _ others⟩
      intro entry member
      obtain ⟨other, inside, same⟩ := mem_keys_of_entries member
      rw [same]
      apply beq_eq_false_iff_ne.mpr
      intro equal
      exact absent (Text.ofChars_injective equal ▸ inside)

theorem key_of_nodes {id : Nat} {fields : List (List Char × Tree)} {entry : Node × Node}
    (member : entry ∈ Tree.nodesOfFields id fields) :
    ∃ number key, entry.1 = .scalar number .str (.ofChars key) := by
  induction fields generalizing id with
  | nil => exact absurd member List.not_mem_nil
  | cons field rest ih =>
      obtain ⟨key, item⟩ := field
      rcases List.mem_cons.mp member with rfl | later
      · exact ⟨id, key, rfl⟩
      · exact ih later

theorem fields_of_places {id start : Nat} {fields : List (List Char × Tree)}
    (plain : assembly.revision = .ofDocument document)
    (distinct : (fields.map Prod.fst).Nodup) (news : assembly.News (Place.ofFields start fields)) :
    Assembling.fields id (Tree.nodesOfFields start fields) assembly =
      .ok (Place.entries start fields, assembly.meet (Place.ofFields start fields)) := by
  obtain ⟨revision, known, waiting, collections⟩ := assembly
  obtain rfl := plain
  have settled : Revision.settle id (Tree.nodesOfFields start fields) (.ofDocument document) =
      .ok (.ofDocument document) := by
    apply Revision.settle_of_ordinary
    intro entry member
    obtain ⟨number, key, same⟩ := key_of_nodes member
    have tag : (Revision.ofDocument document).tagOf (.scalar number .str (.ofChars key)) = .str := rfl
    rw [same, tag]
    decide
  have read := @mapM_field ⟨.ofDocument document, known, waiting, collections⟩ document fields start
    rfl news
  have lifted : (liftM (Revision.settle id (Tree.nodesOfFields start fields)
      (.ofDocument document)) : Assembling Revision) ⟨.ofDocument document, known, waiting, collections⟩ =
        .ok (.ofDocument document, ⟨.ofDocument document, known, waiting, collections⟩) := by
    rw [settled]
    rfl
  have got : (get : Assembling Assembly) ⟨.ofDocument document, known, waiting, collections⟩ =
      .ok (⟨.ofDocument document, known, waiting, collections⟩,
        ⟨.ofDocument document, known, waiting, collections⟩) := rfl
  rw [Assembling.fields, bind_of_ok got, bind_of_ok lifted]
  apply (bind_of_ok rfl).trans
  show ((Tree.nodesOfFields start fields).mapM field >>= _)
    (Assembly.mk (.ofDocument document) known waiting collections) = _
  rw [bind_of_ok read, ofEntries_of_distinct start distinct]
  rfl

/-- What collections hold once the collection at a place is filled. -/
def fillAt (collections : Collections) (place : Place) : Collections :=
  match place.tree with
  | .list _ items =>
    collections.putItems place.id ((Place.ofItems (place.id + 1) items).map Place.value)
  | .dict fields => collections.putEntries place.id (Place.entries (place.id + 1) fields)
  | _ => collections

theorem fill_of_place {place : Place} {room : Nat} (plain : assembly.revision = .ofDocument document)
    (sound : place.tree.Sound room) (collects : place.tree.isCollection = true)
    (news : assembly.News place.children) :
    fill place.node assembly = .ok ((),
      { assembly.meet place.children with
        collections := fillAt assembly.collections place }) := by
  obtain ⟨revision, known, waiting, collections⟩ := assembly
  obtain rfl := plain
  obtain ⟨id, tree⟩ := place
  cases tree with
  | null => exact absurd collects (by simp [Tree.isCollection])
  | text content plain => exact absurd collects (by simp [Tree.isCollection])
  | list flow items =>
      have read := @mapM_value ⟨.ofDocument document, known, waiting, collections⟩ document
        (Place.ofItems (id + 1) items) rfl news
      rw [← Place.nodesOfItems_eq] at read
      show ((Tree.nodesOfItems (id + 1) items).mapM value >>= _)
        (Assembly.mk (.ofDocument document) known waiting collections) = _
      rw [bind_of_ok read]
      rfl
  | dict fields =>
      have distinct : (fields.map Prod.fst).Nodup := by
        cases sound with
        | dict distinct _ _ => exact distinct
      have read := @fields_of_places ⟨.ofDocument document, known, waiting, collections⟩ document id
        (id + 1) fields rfl distinct news
      show (Assembling.fields id (Tree.nodesOfFields (id + 1) fields) >>= _)
        (Assembly.mk (.ofDocument document) known waiting collections) = _
      rw [bind_of_ok read]
      rfl

theorem forM_fill {places : List Place} (plain : assembly.revision = .ofDocument document)
    (sound : ∀ place ∈ places, ∃ room, place.tree.Sound room)
    (collect : ∀ place ∈ places, place.tree.isCollection = true)
    (news : assembly.News (places.flatMap Place.children)) :
    (places.map Place.node).forM fill assembly = .ok ((),
      { assembly.meet (places.flatMap Place.children) with
        collections := places.foldl fillAt assembly.collections }) := by
  induction places generalizing assembly with
  | nil => rfl
  | cons place rest ih =>
      rw [List.flatMap_cons] at news
      obtain ⟨room, known⟩ := sound place List.mem_cons_self
      have first := fill_of_place plain known
        (collect place List.mem_cons_self) news.left
      have others := @ih { assembly.meet place.children with
          collections := fillAt assembly.collections place } plain
        (fun other member => sound other (List.mem_cons_of_mem _ member))
        (fun other member => collect other (List.mem_cons_of_mem _ member))
        ⟨news.right.fresh, news.right.distinct⟩
      show (fill place.node >>= _) assembly = _
      rw [bind_of_ok first, List.flatMap_cons, ← Assembly.meet_append]
      exact others

def Agree (first second : Collections) (id : Nat) : Prop :=
  first.itemsOf id = second.itemsOf id ∧ first.entriesOf id = second.entriesOf id

theorem Agree.trans {first second third : Collections} {id : Nat} (left : Agree first second id)
    (right : Agree second third id) : Agree first third id :=
  ⟨left.1.trans right.1, left.2.trans right.2⟩

def Holds (collections : Collections) (place : Place) : Prop :=
  match place.tree with
  | .list _ items =>
    collections.itemsOf place.id = (Place.ofItems (place.id + 1) items).map Place.value
  | .dict fields => collections.entriesOf place.id = Place.entries (place.id + 1) fields
  | _ => True

theorem agree_fillAt {place : Place} {id : Nat} (different : id ≠ place.id)
    (collections : Collections) : Agree (fillAt collections place) collections id := by
  obtain ⟨number, tree⟩ := place
  cases tree with
  | null => exact ⟨rfl, rfl⟩
  | text content plain => exact ⟨rfl, rfl⟩
  | list flow items => exact ⟨Collections.itemsOf_putItems_of_ne different _ _, rfl⟩
  | dict fields => exact ⟨rfl, Collections.entriesOf_putEntries_of_ne different _ _⟩

theorem agree_foldl {places : List Place} {id : Nat} (different : ∀ place ∈ places, id ≠ place.id)
    (collections : Collections) : Agree (places.foldl fillAt collections) collections id := by
  induction places generalizing collections with
  | nil => exact ⟨rfl, rfl⟩
  | cons place rest ih =>
      have first := agree_fillAt (different place List.mem_cons_self) collections
      have others := ih (fun other member => different other (List.mem_cons_of_mem _ member))
        (fillAt collections place)
      exact others.trans first

theorem holds_fillAt (collections : Collections) (place : Place) :
    Holds (fillAt collections place) place := by
  obtain ⟨id, tree⟩ := place
  cases tree with
  | null => exact trivial
  | text content plain => exact trivial
  | list flow items => exact Collections.itemsOf_putItems_self _ _ _
  | dict fields => exact Collections.entriesOf_putEntries_self _ _ _

theorem Holds.agree {first second : Collections} {place : Place} (holds : Holds first place)
    (agree : Agree second first place.id) : Holds second place := by
  obtain ⟨id, tree⟩ := place
  cases tree with
  | null => exact trivial
  | text content plain => exact trivial
  | list flow items => exact agree.1.trans holds
  | dict fields => exact agree.2.trans holds

theorem holds_foldl {places : List Place}
    (distinct : places.Pairwise fun first second => first.id ≠ second.id)
    (collections : Collections) {place : Place} (member : place ∈ places) :
    Holds (places.foldl fillAt collections) place := by
  induction places generalizing collections with
  | nil => exact absurd member List.not_mem_nil
  | cons first rest ih =>
      obtain ⟨apart, others⟩ := List.pairwise_cons.mp distinct
      rcases List.mem_cons.mp member with rfl | later
      · exact (holds_fillAt collections place).agree (agree_foldl apart _)
      · exact ih others _ later

theorem itemsMean_of_places {collections : Collections} {id : Nat} {items : List Tree}
    (each : ∀ place ∈ Place.ofItems id items, place.tree.Means collections place.value) :
    Tree.ItemsMean collections items ((Place.ofItems id items).map Place.value) := by
  induction items generalizing id with
  | nil => rw [Tree.ItemsMean]; rfl
  | cons item rest ih =>
      rw [Tree.ItemsMean]
      exact ⟨_, _, rfl, each _ List.mem_cons_self,
        ih fun place member => each place (List.mem_cons_of_mem _ member)⟩

theorem fieldsMean_of_places {collections : Collections} {id : Nat}
    {fields : List (List Char × Tree)}
    (each : ∀ place ∈ Place.ofFields id fields, place.tree.Means collections place.value) :
    Tree.FieldsMean collections fields (Place.entries id fields) := by
  induction fields generalizing id with
  | nil => rw [Tree.FieldsMean]; rfl
  | cons field rest ih =>
      obtain ⟨key, item⟩ := field
      rw [Tree.FieldsMean]
      exact ⟨_, _, rfl, each _ (List.mem_cons_of_mem _ List.mem_cons_self),
        ih fun place member =>
          each place (List.mem_cons_of_mem _ (List.mem_cons_of_mem _ member))⟩

theorem means_of_holds {collections : Collections} {place : Place} (holds : Holds collections place)
    (each : ∀ child ∈ place.children, child.tree.Means collections child.value) :
    place.tree.Means collections place.value := by
  obtain ⟨id, tree⟩ := place
  cases tree with
  | null => rw [Tree.Means]; rfl
  | text content plain => rw [Tree.Means]; rfl
  | list flow items =>
      have filled : collections.itemsOf id = (Place.ofItems (id + 1) items).map Place.value := holds
      rw [Tree.Means]
      refine ⟨id, rfl, ?_⟩
      rw [filled]
      exact itemsMean_of_places each
  | dict fields =>
      have filled : collections.entriesOf id = Place.entries (id + 1) fields := holds
      rw [Tree.Means]
      refine ⟨id, rfl, ?_⟩
      rw [filled]
      exact fieldsMean_of_places each

/-- The state before the collections at some places are filled: none of the nodes inside of them
has been met. -/
structure Ready (document : Document) (assembly : Assembly) (places : List Place) : Prop where
  plain : assembly.revision = .ofDocument document
  sound : ∀ place ∈ places, ∃ room, place.tree.Sound room
  collect : ∀ place ∈ places, place.tree.isCollection = true
  ordered : Place.Ordered places
  unmet : ∀ place ∈ places, ∀ entry ∈ assembly.known, ¬(place.id < entry.1 ∧ entry.1 < place.stop)

theorem Ready.news {places : List Place} (ready : Ready document assembly places) :
    assembly.News (places.flatMap Place.children) := by
  refine ⟨?_, (Place.ordered_flatMap ready.ordered).distinct⟩
  intro child member entry known same
  obtain ⟨place, inside, below⟩ := List.mem_flatMap.mp member
  have within := Place.within_children below
  have positive := Place.size_pos child.tree
  apply ready.unmet place inside entry known
  simp only [Place.stop] at within ⊢
  omega

/-- The collections met while those at some places are filled. -/
def nextLevel (places : List Place) : List Place :=
  (places.flatMap Place.children).filter (·.tree.isCollection)

theorem mem_nextLevel {places : List Place} {child : Place} (member : child ∈ nextLevel places) :
    ∃ place ∈ places, child ∈ place.children := by
  exact List.mem_flatMap.mp (List.mem_filter.mp member).1

theorem within_nextLevel {places : List Place} {child : Place} (member : child ∈ nextLevel places) :
    ∃ place ∈ places, place.id < child.id ∧ child.stop ≤ place.stop := by
  obtain ⟨place, inside, below⟩ := mem_nextLevel member
  exact ⟨place, inside, Place.within_children below⟩

theorem size_nextLevel {fuel : Nat} {places : List Place}
    (enough : ∀ place ∈ places, place.tree.size ≤ fuel + 1) :
    ∀ child ∈ nextLevel places, child.tree.size ≤ fuel := by
  intro child member
  obtain ⟨place, inside, within⟩ := within_nextLevel member
  have bound := enough place inside
  simp only [Place.stop] at within
  omega

theorem apart_nextLevel {places : List Place} (ordered : Place.Ordered places) {place child : Place}
    (member : place ∈ places) (below : child ∈ nextLevel places) :
    ¬(child.id ≤ place.id ∧ place.id < child.stop) := by
  obtain ⟨other, inside, within⟩ := within_nextLevel below
  have positive := Place.size_pos place.tree
  rcases ordered.apart member inside with rfl | before | behind
  · omega
  · simp only [Place.stop] at before
    omega
  · omega

def afterLevel (places : List Place) (assembly : Assembly) : Assembly :=
  { assembly.meet (places.flatMap Place.children) with
    waiting := [], collections := places.foldl fillAt assembly.collections }

theorem Ready.next {places : List Place} (ready : Ready document assembly places) :
    Ready document (afterLevel places assembly) (nextLevel places) := by
  have apart := Place.ordered_flatMap ready.ordered
  refine ⟨ready.plain, ?_, ?_, apart.sublist List.filter_sublist, ?_⟩
  · intro child member
    obtain ⟨place, inside, below⟩ := mem_nextLevel member
    exact Place.sound_of_children (ready.sound place inside) below
  · intro child member
    exact (List.mem_filter.mp member).2
  · intro child member entry met
    obtain ⟨place, inside, below⟩ := mem_nextLevel member
    have within := Place.within_children below
    rcases Assembly.mem_known_meet met with ⟨other, behind, number⟩ | old
    · have positive := Place.size_pos other.tree
      rcases apart.apart (List.mem_filter.mp member).1 behind with rfl | before | later
      · omega
      · omega
      · simp only [Place.stop] at later
        omega
    · have outside := ready.unmet place inside entry old
      omega

theorem means_of_leaf {place : Place} (leaf : place.tree.isCollection = false)
    (collections : Collections) : place.tree.Means collections place.value := by
  obtain ⟨id, tree⟩ := place
  cases tree with
  | null => rw [Tree.Means]; rfl
  | text content plain => rw [Tree.Means]; rfl
  | list flow items => exact absurd leaf (by simp [Tree.isCollection])
  | dict fields => exact absurd leaf (by simp [Tree.isCollection])

/-- What a tree below a filled place means, given what the collections of the next level mean. -/
theorem means_of_child {collections : Collections} {places : List Place} {place child : Place}
    (inside : place ∈ places) (member : child ∈ place.children)
    (next : ∀ other ∈ nextLevel places, other.tree.Means collections other.value) :
    child.tree.Means collections child.value := by
  cases collects : child.tree.isCollection with
  | true =>
      exact next child (List.mem_filter.mpr ⟨List.mem_flatMap.mpr ⟨place, inside, member⟩, collects⟩)
  | false => exact means_of_leaf collects collections

theorem fillLevels_step {fuel : Nat} {nodes : List Node} {filled : Assembly} (given : nodes ≠ [])
    (known : nodes.forM fill assembly = .ok ((), filled)) :
    fillLevels (fuel + 1) nodes assembly =
      fillLevels fuel filled.waiting.reverse { filled with waiting := [] } := by
  obtain ⟨node, rest, rfl⟩ := List.exists_cons_of_ne_nil given
  show ((node :: rest).forM fill >>= _) assembly = _
  rw [bind_of_ok known]
  rfl

/-- Filling the collections at some places, and then what is below them, gives each its meaning and
changes nothing outside. -/
theorem fillLevels_of_places {fuel : Nat} {places : List Place}
    (ready : Ready document assembly places) (idle : assembly.waiting = [])
    (enough : ∀ place ∈ places, place.tree.size ≤ fuel) :
    ∃ after, fillLevels fuel (places.map Place.node) assembly = .ok ((), after) ∧
      (∀ place ∈ places, place.tree.Means after.collections place.value) ∧
      ∀ id, (∀ place ∈ places, ¬(place.id ≤ id ∧ id < place.stop)) →
        Agree after.collections assembly.collections id := by
  induction fuel generalizing places assembly with
  | zero =>
      cases places with
      | nil => exact ⟨assembly, rfl, by simp, fun _ _ => ⟨rfl, rfl⟩⟩
      | cons place rest =>
          have positive := Place.size_pos place.tree
          have none := enough place List.mem_cons_self
          omega
  | succ fuel ih =>
      cases places with
      | nil => exact ⟨assembly, rfl, by simp, fun _ _ => ⟨rfl, rfl⟩⟩
      | cons first rest =>
          have filled := forM_fill ready.plain ready.sound ready.collect ready.news
          generalize whole : first :: rest = places at *
          obtain ⟨after, run, means, frame⟩ := ih ready.next rfl (size_nextLevel enough)
          refine ⟨after, ?_, ?_, ?_⟩
          · have given : places.map Place.node ≠ [] := by simp [← whole]
            have waiting : (assembly.meet (places.flatMap Place.children)).waiting.reverse =
                (nextLevel places).map Place.node := by
              simp [Assembly.meet, idle, nextLevel]
            calc
              fillLevels (fuel + 1) (places.map Place.node) assembly
                  = fillLevels fuel (assembly.meet (places.flatMap Place.children)).waiting.reverse
                      (afterLevel places assembly) := fillLevels_step given filled
              _ = fillLevels fuel ((nextLevel places).map Place.node) (afterLevel places assembly) := by
                  rw [waiting]
              _ = .ok ((), after) := run
          · intro place member
            have untouched : Agree after.collections (afterLevel places assembly).collections place.id :=
              frame place.id fun _ below => apart_nextLevel ready.ordered member below
            have holds := holds_foldl ready.ordered.distinct assembly.collections member
            exact means_of_holds (holds.agree untouched)
              fun child below => means_of_child member below means
          · intro id outside
            have deeper : Agree after.collections (afterLevel places assembly).collections id := by
              apply frame
              intro child below
              obtain ⟨place, inside, within⟩ := within_nextLevel below
              have excluded := outside place inside
              omega
            have here : ∀ place ∈ places, id ≠ place.id := by
              intro place member same
              have positive := Place.size_pos place.tree
              have excluded := outside place member
              simp only [Place.stop] at excluded
              omega
            exact deeper.trans (agree_foldl here assembly.collections)

end Assembling

theorem Document.meaning_of_tree {room : Nat} {tree : Tree} (sound : tree.Sound room) :
    ∃ value collections, Document.meaning ⟨tree.node 0, tree.size⟩ = .ok (value, collections) ∧
      tree.Means collections value := by
  let document : Document := ⟨tree.node 0, tree.size⟩
  let root : Place := ⟨0, tree⟩
  let start : Assembly := ⟨.ofDocument document, [], [], .empty⟩
  let level : List Place := [root].filter (·.tree.isCollection)
  let met : Assembly := { start.meet [root] with waiting := [] }
  have only : ∀ place ∈ level, place = root := fun place member =>
    List.mem_singleton.mp (List.mem_filter.mp member).1
  have news : start.News [root] :=
    ⟨fun _ _ _ known => absurd known List.not_mem_nil, List.pairwise_singleton _ _⟩
  have ready : Assembling.Ready document met level := by
    refine ⟨rfl, ?_, ?_, (List.pairwise_singleton _ root).sublist List.filter_sublist, ?_⟩
    · intro place member
      rw [only place member]
      exact ⟨room, sound⟩
    · intro place member
      exact (List.mem_filter.mp member).2
    · intro place member entry known
      rw [only place member]
      rcases Assembly.mem_known_meet known with ⟨other, same, number⟩ | none
      · rw [number, List.mem_singleton.mp same]
        omega
      · exact absurd none List.not_mem_nil
  have enough : ∀ place ∈ level, place.tree.size ≤ document.count + 1 := by
    intro place member
    rw [only place member]
    exact Nat.le_succ _
  obtain ⟨after, run, means, _⟩ := Assembling.fillLevels_of_places ready rfl enough
  refine ⟨root.value, after.collections, ?_, ?_⟩
  · have first := @Assembling.value_of_place start document root rfl news
    have waiting : (start.meet [root]).waiting.reverse = level.map Place.node := by
      simp [Assembly.meet, start, level]
    have whole : Assembling.document document start = .ok (root.value, after) := by
      show (Assembling.value root.node >>= _) start = _
      rw [bind_of_ok first]
      show (Assembling.fillLevels (document.count + 1) (start.meet [root]).waiting.reverse >>=
        fun _ => pure root.value) met = _
      rw [waiting, bind_of_ok run]
      rfl
    show (Assembling.document document start).map _ = _
    rw [whole]
    rfl
  · cases collects : tree.isCollection with
    | true => exact means root (List.mem_filter.mpr ⟨List.mem_cons_self, collects⟩)
    | false => exact @Assembling.means_of_leaf root collects after.collections

/-- A text whose tokens are those of a tree has the meaning of the tree. -/
theorem load_of_scan [Host] {source : List Char} {tree : Tree} (sound : tree.Sound Host.markupDepth)
    (given : tree ≠ .null) (scanned : Token.scan source = ⟨tree.tokens, none⟩) :
    ∃ value collections, load (.ofChars source) = .ok (value, collections) ∧
      tree.Means collections value := by
  obtain ⟨value, collections, read, means⟩ := Document.meaning_of_tree sound
  refine ⟨value, collections, ?_, means⟩
  rw [load_ofChars, scanned, Document.ofTokens?_of_tree sound given]
  exact read

end Workflow.Yaml
