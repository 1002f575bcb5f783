import Workflow.Proofs.Yaml.Tree
import Workflow.Yaml.Value.Basic

/-! The places of trees: which numbers the nodes of a tree have, and that the trees right below one
or more others have them apart from each other. -/

namespace Workflow.Yaml

/-- A tree with the number of its node. -/
structure Place where
  id : Nat
  tree : Tree

namespace Place

def node (place : Place) : Node := place.tree.node place.id

def stop (place : Place) : Nat := place.id + place.tree.size

def value (place : Place) : Value :=
  match place.tree with
  | .null => .null
  | .text content _ => .text (Text.ofChars content)
  | .list .. => .list place.id
  | .dict _ => .dict place.id

def ofItems (id : Nat) : List Tree → List Place
  | [] => []
  | item :: rest => ⟨id, item⟩ :: ofItems (id + item.size) rest

def ofFields (id : Nat) : List (List Char × Tree) → List Place
  | [] => []
  | (key, item) :: rest =>
    ⟨id, .text key true⟩ :: ⟨id + 1, item⟩ :: ofFields (id + 1 + item.size) rest

def entries (id : Nat) : List (List Char × Tree) → List (Value × Value)
  | [] => []
  | (key, item) :: rest =>
    (.text (Text.ofChars key), value ⟨id + 1, item⟩) :: entries (id + 1 + item.size) rest

def children (place : Place) : List Place :=
  match place.tree with
  | .list _ items => ofItems (place.id + 1) items
  | .dict fields => ofFields (place.id + 1) fields
  | _ => []

/-- Places one after another, none inside of another one. -/
def Ordered (places : List Place) : Prop := places.Pairwise fun first second => first.stop ≤ second.id

theorem size_pos (tree : Tree) : 0 < tree.size := by
  cases tree <;> simp only [Tree.size] <;> omega

theorem nodesOfItems_eq (id : Nat) (items : List Tree) :
    Tree.nodesOfItems id items = (ofItems id items).map node := by
  induction items generalizing id with
  | nil => rfl
  | cons item rest ih => rw [Tree.nodesOfItems, ofItems, List.map_cons, ih]; rfl

theorem within_ofItems {id : Nat} {items : List Tree} {place : Place}
    (member : place ∈ ofItems id items) :
    id ≤ place.id ∧ place.stop ≤ id + Tree.sizeOfItems items := by
  induction items generalizing id with
  | nil => exact absurd member List.not_mem_nil
  | cons item rest ih =>
      rw [Tree.sizeOfItems]
      rcases List.mem_cons.mp member with rfl | later
      · simp only [stop]
        omega
      · have inside := ih later
        omega

theorem ordered_ofItems (id : Nat) (items : List Tree) : Ordered (ofItems id items) := by
  induction items generalizing id with
  | nil => exact List.Pairwise.nil
  | cons item rest ih =>
      refine List.pairwise_cons.mpr ⟨?_, ih _⟩
      intro place member
      exact (within_ofItems member).1

theorem within_ofFields {id : Nat} {fields : List (List Char × Tree)} {place : Place}
    (member : place ∈ ofFields id fields) :
    id ≤ place.id ∧ place.stop ≤ id + Tree.sizeOfFields fields := by
  induction fields generalizing id with
  | nil => exact absurd member List.not_mem_nil
  | cons field rest ih =>
      obtain ⟨key, item⟩ := field
      have positive := size_pos item
      rw [Tree.sizeOfFields]
      rcases List.mem_cons.mp member with rfl | behind
      · simp only [stop, Tree.size]
        omega
      · rcases List.mem_cons.mp behind with rfl | later
        · simp only [stop]
          omega
        · have inside := ih later
          omega

theorem ordered_ofFields (id : Nat) (fields : List (List Char × Tree)) :
    Ordered (ofFields id fields) := by
  induction fields generalizing id with
  | nil => exact List.Pairwise.nil
  | cons field rest ih =>
      obtain ⟨key, item⟩ := field
      refine List.pairwise_cons.mpr ⟨?_, List.pairwise_cons.mpr ⟨?_, ih _⟩⟩
      · intro place member
        simp only [stop, Tree.size]
        rcases List.mem_cons.mp member with rfl | later
        · exact Nat.le_refl _
        · have inside := within_ofFields later
          omega
      · intro place member
        exact (within_ofFields member).1

theorem within_children {place child : Place} (member : child ∈ place.children) :
    place.id < child.id ∧ child.stop ≤ place.stop := by
  obtain ⟨id, tree⟩ := place
  cases tree with
  | null => exact absurd member List.not_mem_nil
  | text content plain => exact absurd member List.not_mem_nil
  | list flow items =>
      have inside := within_ofItems member
      simp only [stop, Tree.size] at inside ⊢
      omega
  | dict fields =>
      have inside := within_ofFields member
      simp only [stop, Tree.size] at inside ⊢
      omega

theorem ordered_children (place : Place) : Ordered place.children := by
  obtain ⟨id, tree⟩ := place
  cases tree with
  | null => exact List.Pairwise.nil
  | text content plain => exact List.Pairwise.nil
  | list flow items => exact ordered_ofItems _ items
  | dict fields => exact ordered_ofFields _ fields

theorem tree_of_ofItems {id : Nat} {items : List Tree} {place : Place}
    (member : place ∈ ofItems id items) : place.tree ∈ items := by
  induction items generalizing id with
  | nil => exact absurd member List.not_mem_nil
  | cons item rest ih =>
      rcases List.mem_cons.mp member with rfl | later
      · exact List.mem_cons_self
      · exact List.mem_cons_of_mem _ (ih later)

theorem tree_of_ofFields {id : Nat} {fields : List (List Char × Tree)} {place : Place}
    (member : place ∈ ofFields id fields) :
    ∃ field ∈ fields, place.tree = .text field.1 true ∨ place.tree = field.2 := by
  induction fields generalizing id with
  | nil => exact absurd member List.not_mem_nil
  | cons field rest ih =>
      obtain ⟨key, item⟩ := field
      rcases List.mem_cons.mp member with rfl | behind
      · exact ⟨_, List.mem_cons_self, .inl rfl⟩
      · rcases List.mem_cons.mp behind with rfl | later
        · exact ⟨_, List.mem_cons_self, .inr rfl⟩
        · obtain ⟨other, inside, same⟩ := ih later
          exact ⟨other, List.mem_cons_of_mem _ inside, same⟩

theorem sound_of_children {place child : Place} (sound : ∃ room, place.tree.Sound room)
    (member : child ∈ place.children) : ∃ room, child.tree.Sound room := by
  obtain ⟨id, tree⟩ := place
  obtain ⟨room, sound⟩ := sound
  cases sound with
  | null => exact absurd member List.not_mem_nil
  | text known => exact absurd member List.not_mem_nil
  | words texts =>
      obtain ⟨content, plain, same, known⟩ := texts _ (tree_of_ofItems member)
      exact ⟨0, same ▸ .text known⟩
  | lines each => exact ⟨_, each _ (tree_of_ofItems member)⟩
  | dict _ keys each =>
      obtain ⟨field, inside, same | same⟩ := tree_of_ofFields member
      · exact ⟨0, same ▸ .text ((Reading.scalarTag_plain _).trans (keys field inside))⟩
      · exact ⟨_, same ▸ each field inside⟩

theorem Ordered.distinct {places : List Place} (ordered : Ordered places) :
    places.Pairwise fun first second => first.id ≠ second.id := by
  apply ordered.imp
  intro first second before
  have positive := size_pos first.tree
  simp only [stop] at before
  omega

theorem Ordered.apart {places : List Place} (ordered : Ordered places) {first second : Place}
    (member : first ∈ places) (known : second ∈ places) :
    first = second ∨ first.stop ≤ second.id ∨ second.stop ≤ first.id := by
  induction places with
  | nil => exact absurd member List.not_mem_nil
  | cons place rest ih =>
      obtain ⟨before, others⟩ := List.pairwise_cons.mp ordered
      rcases List.mem_cons.mp member with rfl | later
      · rcases List.mem_cons.mp known with rfl | behind
        · exact .inl rfl
        · exact .inr (.inl (before second behind))
      · rcases List.mem_cons.mp known with rfl | behind
        · exact .inr (.inr (before first later))
        · exact ih others later behind

theorem ordered_flatMap {places : List Place} (ordered : Ordered places) :
    Ordered (places.flatMap children) := by
  refine List.pairwise_flatMap.mpr ⟨fun place _ => ordered_children place, ?_⟩
  apply ordered.imp
  intro first second before child member other known
  have inside := within_children member
  have outside := within_children known
  omega

end Place

end Workflow.Yaml
