import Workflow.Proofs.Spec.Faults

/-! Values with a text. Collections may contain themselves, but on a way down each of them and each pair
is entered once, so the depth that is allowed for is enough: a value of a document has a text unless a
whole number in it is too long. -/

namespace Workflow.Yaml

/-- Whether the whole numbers of a value can be written. -/
def Value.isWritable : Value → Bool
  | .int value => Numeral.writable value
  | .pair _ _ first second => first.isWritable && second.isWritable
  | _ => true

namespace Collections

variable {collections : Collections} {active : List (Nat × Option Nat)} {value : Value} {fuel : Nat}

theorem exists_held {α : Type} {table : List (Nat × List α)} {id : Nat} {item : α}
    (member : item ∈ (table.lookup id).getD []) : ∃ held, (id, held) ∈ table ∧ item ∈ held := by
  cases found : table.lookup id with
  | none => simp [found] at member
  | some held =>
      rw [found] at member
      obtain ⟨before, after, rfl, _⟩ := List.lookup_eq_some_iff.mp found
      exact ⟨held, List.mem_append_right _ List.mem_cons_self, member⟩

structure Writable (collections : Collections) : Prop where
  items : ∀ id, ∀ item ∈ collections.itemsOf id, item.isWritable = true
  entries : ∀ id, ∀ entry ∈ collections.entriesOf id,
    entry.1.isWritable = true ∧ entry.2.isWritable = true

/-- Whether all whole numbers that are held can be written. -/
def allWritable (collections : Collections) : Bool :=
  collections.items.all (fun held => held.2.all Value.isWritable) &&
    collections.entries.all fun held =>
      held.2.all fun entry => entry.1.isWritable && entry.2.isWritable

theorem writable_of_all (all : collections.allWritable = true) : collections.Writable := by
  simp only [allWritable, Bool.and_eq_true, List.all_eq_true] at all
  constructor
  · intro id item member
    obtain ⟨items, held, inside⟩ := exists_held member
    exact all.1 _ held item inside
  · intro id entry member
    obtain ⟨entries, held, inside⟩ := exists_held member
    exact all.2 _ held entry inside

/-- A value for any place of a document: it is no pair, and if it is a set, then one of keys. -/
def Fits (collections : Collections) : Value → Prop
  | .pair .. => False
  | .set id => ∀ item ∈ collections.itemsOf id, item.isKey = true
  | _ => True

/-- Only a list holds pairs. -/
def FitsItem (collections : Collections) : Value → Prop
  | .pair _ _ first second => collections.Fits first ∧ collections.Fits second
  | value => collections.Fits value

theorem fits_of_key (key : value.isKey = true) : collections.Fits value := by
  cases value with
  | set _ | pair _ _ _ _ => cases key
  | _ => trivial

structure Nested (collections : Collections) : Prop where
  items : ∀ id, ∀ item ∈ collections.itemsOf id, collections.FitsItem item
  entries : ∀ id, ∀ entry ∈ collections.entriesOf id, entry.1.isKey = true ∧ collections.Fits entry.2

/-- The place at which a pair is entered. -/
def pairPlace? : Value → Option (Nat × Option Nat)
  | .pair owner place _ _ => some (owner, some place)
  | _ => none

/-- All that can be entered on a way down. -/
def places (collections : Collections) : List (Nat × Option Nat) :=
  collections.items.map (fun held => (held.1, none)) ++
    collections.entries.map (fun held => (held.1, none)) ++
      (collections.items.flatMap Prod.snd).filterMap pairPlace?

theorem length_places (collections : Collections) :
    collections.places.length + 2 ≤ Value.displayFuel collections := by
  have pairs := List.length_filterMap_le pairPlace? (collections.items.flatMap Prod.snd)
  simp only [places, Value.displayFuel, size, List.length_append, List.length_map]
  omega

theorem list_mem_places {id : Nat} (member : value ∈ collections.itemsOf id) :
    (id, none) ∈ collections.places := by
  obtain ⟨items, held, _⟩ := exists_held member
  exact List.mem_append_left _ (List.mem_append_left _ (List.mem_map.mpr ⟨_, held, rfl⟩))

theorem dict_mem_places {id : Nat} {entry : Value × Value}
    (member : entry ∈ collections.entriesOf id) : (id, none) ∈ collections.places := by
  obtain ⟨entries, held, _⟩ := exists_held member
  exact List.mem_append_left _ (List.mem_append_right _ (List.mem_map.mpr ⟨_, held, rfl⟩))

theorem pair_mem_places {id owner place : Nat} {first second : Value}
    (member : .pair owner place first second ∈ collections.itemsOf id) :
    (owner, some place) ∈ collections.places := by
  obtain ⟨items, held, inside⟩ := exists_held member
  exact List.mem_append_right _
    (List.mem_filterMap.mpr ⟨_, List.mem_flatMap.mpr ⟨_, held, inside⟩, rfl⟩)

/-- A way down with room for what has not been entered so far, a set and a key. -/
structure Descent (collections : Collections) (active : List (Nat × Option Nat)) (fuel : Nat) :
    Prop where
  distinct : active.Nodup
  inside : active ⊆ collections.places
  enough : collections.places.length + 2 ≤ fuel + active.length

theorem Descent.room (descent : Descent collections active fuel) : 2 ≤ fuel := by
  have bound := descent.distinct.length_le_of_subset descent.inside
  have enough := descent.enough
  omega

theorem Descent.enter (descent : Descent collections active (fuel + 1)) {place : Nat × Option Nat}
    (member : place ∈ collections.places) (new : active.contains place = false) :
    Descent collections (place :: active) fuel := by
  have unseen : place ∉ active := fun seen => by simp [seen] at new
  refine ⟨List.nodup_cons.mpr ⟨unseen, descent.distinct⟩,
    List.cons_subset.mpr ⟨member, descent.inside⟩, ?_⟩
  have enough := descent.enough
  rw [List.length_cons]
  omega

theorem descent_displayFuel (collections : Collections) :
    Descent collections [] (Value.displayFuel collections) :=
  ⟨List.nodup_nil, List.nil_subset _, length_places collections⟩

theorem key_shown [Host] (key : value.isKey = true) (writable : value.isWritable = true) :
    ¬Fails (value.literalChars collections active (fuel + 1)) := by
  rintro ⟨cause, failed⟩
  cases value with
  | int number =>
      have short : Numeral.writable number = true := writable
      simp [Value.literalChars, Value.intChars, short] at failed
  | list _ | dict _ | set _ | pair _ _ _ _ => cases key
  | null | bool _ | double _ | nan _ | text _ | bytes _ | date _ | dateTime _ =>
      simp [Value.literalChars] at failed

/-- What is held has a text wherever a way down leads to it. -/
theorem literal_shown [Host] (nested : collections.Nested) (writable : collections.Writable)
    (descent : Descent collections active fuel) (own : value.isWritable = true)
    (fits : collections.Fits value ∨ ∃ id, value ∈ collections.itemsOf id) :
    ¬Fails (Value.literalChars collections active fuel value) := by
  -- each list, dictionary and pair that is entered is a new one; a set has only keys below it
  induction fuel generalizing value active with
  | zero => exact absurd descent.room (by decide)
  | succ fuel ih =>
      cases value with
      | list id =>
          simp only [Value.literalChars]
          split
          · simp [Fails]
          · rename_i new
            rw [map_fails_iff, mapM_fails_iff]
            rintro ⟨item, member, failed⟩
            exact ih (descent.enter (list_mem_places member) (Bool.eq_false_iff.mpr new))
              (writable.items id item member) (.inr ⟨id, member⟩) failed
      | dict id =>
          simp only [Value.literalChars]
          split
          · simp [Fails]
          · rename_i new
            rw [map_fails_iff, mapM_fails_iff]
            rintro ⟨⟨key, content⟩, member, failed⟩
            rw [bind_fails_iff fun _ => bind_fails_iff fun _ => pure_fails_iff, or_false] at failed
            have deeper := descent.enter (dict_mem_places member) (Bool.eq_false_iff.mpr new)
            obtain ⟨plain, sits⟩ := nested.entries id _ member
            obtain ⟨short, further⟩ := writable.entries id _ member
            rcases failed with first | second
            · exact ih deeper short (.inl (fits_of_key plain)) first
            · exact ih deeper further (.inl sits) second
      | set id =>
          have keys : collections.Fits (.set id) := by
            rcases fits with sits | ⟨other, member⟩
            · exact sits
            · exact nested.items other _ member
          simp only [Value.literalChars]
          split
          · simp [Fails]
          · rw [map_fails_iff, mapM_fails_iff]
            rintro ⟨item, member, failed⟩
            obtain ⟨less, rfl⟩ := Nat.exists_eq_add_one_of_ne_zero
              (Nat.pos_iff_ne_zero.mp (Nat.le_of_succ_le_succ descent.room))
            exact key_shown (keys item member) (writable.items id item member) failed
      | pair owner place first second =>
          obtain ⟨id, member⟩ := fits.resolve_left id
          simp only [Value.literalChars]
          split
          · simp [Fails]
          · rename_i new
            have deeper := descent.enter (pair_mem_places member) (Bool.eq_false_iff.mpr new)
            obtain ⟨left, right⟩ := nested.items id _ member
            rw [map_fails_iff, mapM_fails_iff]
            rintro ⟨item, chosen, failed⟩
            obtain ⟨ownFirst, ownSecond⟩ := Bool.and_eq_true_iff.mp own
            rcases List.mem_pair.mp chosen with rfl | rfl
            · exact ih deeper ownFirst (.inl left) failed
            · exact ih deeper ownSecond (.inl right) failed
      | null | bool _ | int _ | double _ | nan _ | text _ | bytes _ | date _ | dateTime _ =>
          exact key_shown rfl own

theorem exists_display [Host] (nested : collections.Nested) (writable : collections.Writable)
    (own : value.isWritable = true) (fits : collections.Fits value ∨ ∃ id, value ∈ collections.itemsOf id) :
    ∃ text, value.display collections = .ok text := by
  cases shown : value.display collections with
  | ok text => exact ⟨text, rfl⟩
  | error cause =>
      unfold Value.display at shown
      split at shown
      · cases shown
      · cases shown
      · cases shown
      · have literal := literal_shown nested writable (descent_displayFuel collections) own fits
        exact absurd ⟨cause, except_map_eq_error shown⟩ literal

end Collections

end Workflow.Yaml
