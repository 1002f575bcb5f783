import Workflow.Calendar
import Workflow.Json.Value

/-! What a document means: plain values, lists, dictionaries and sets. A collection stands in other
values by its number; what it holds is kept in a table, since collections can be shared and can
contain themselves. -/

namespace Workflow.Yaml

inductive Value where
  | null
  | bool (value : Bool)
  | int (value : Int)
  | double (value : Binary64)
  /-- Not a number, as it was read from a node; it is equal to itself only. -/
  | nan (node : Nat)
  | text (value : Text)
  | bytes (value : List UInt8)
  | date (value : Date)
  | dateTime (value : DateTime)
  | list (id : Nat)
  | dict (id : Nat)
  | set (id : Nat)
  /-- A pair at a place of a list. -/
  | pair (list place : Nat) (first second : Value)
  deriving Inhabited

/-- What the collections hold. -/
structure Collections where
  /-- The items of lists and the members of sets. -/
  items : List (Nat × List Value)
  entries : List (Nat × List (Value × Value))
  deriving Inhabited

namespace Value

def isKey : Value → Bool
  | .list _ | .dict _ | .set _ | .pair .. => false
  | _ => true

/-- The whole number that a key counts as, a truth value being one or zero. -/
def whole? : Value → Option Int
  | .bool value => some (if value then 1 else 0)
  | .int value => some value
  | .double value => value.toInt?
  | _ => none

def sameKey : Value → Value → Bool
  | .null, .null => true
  | .text first, .text second => first == second
  | .bytes first, .bytes second => first == second
  | .date first, .date second => first == second
  | .dateTime first, .dateTime second => first.sameMoment second
  | .double first, .double second => first == second || first.sameValue second
  | .nan first, .nan second => first == second
  | first, second =>
    match first.whole?, second.whole? with
    | some m, some n => m == n
    | _, _ => false

/-- A known key keeps its place and its first form, and gets the new value. -/
def putEntry (key value : Value) : List (Value × Value) → List (Value × Value)
  | [] => [(key, value)]
  | (known, old) :: rest =>
    if sameKey known key then (known, value) :: rest else (known, old) :: putEntry key value rest

def ofEntries (entries : List (Value × Value)) : List (Value × Value) :=
  entries.foldl (fun table (key, value) => putEntry key value table) []

def fieldOf? (key : Text) : List (Value × Value) → Option Value
  | [] => none
  | (.text name, value) :: rest => if name = key then some value else fieldOf? key rest
  | _ :: rest => fieldOf? key rest

def kind : Value → Text
  | .null => "NoneType"
  | .bool _ => "bool"
  | .int _ => "int"
  | .double _ | .nan _ => "float"
  | .text _ => "str"
  | .bytes _ => "bytes"
  | .date _ => "date"
  | .dateTime _ => "datetime"
  | .list _ => "list"
  | .dict _ => "dict"
  | .set _ => "set"
  | .pair .. => "tuple"

end Value

namespace Collections

def empty : Collections := ⟨[], []⟩

def itemsOf (collections : Collections) (id : Nat) : List Value :=
  (collections.items.lookup id).getD []

def entriesOf (collections : Collections) (id : Nat) : List (Value × Value) :=
  (collections.entries.lookup id).getD []

def putItems (id : Nat) (items : List Value) (collections : Collections) : Collections :=
  { collections with items := (id, items) :: collections.items }

def putEntries (id : Nat) (entries : List (Value × Value)) (collections : Collections) :
    Collections :=
  { collections with entries := (id, entries) :: collections.entries }

def size (collections : Collections) : Nat := collections.items.length + collections.entries.length

theorem itemsOf_putItems_self (id : Nat) (items : List Value) (collections : Collections) :
    (collections.putItems id items).itemsOf id = items := by
  simp [itemsOf, putItems]

theorem itemsOf_putItems_of_ne {id other : Nat} (different : other ≠ id) (items : List Value)
    (collections : Collections) :
    (collections.putItems id items).itemsOf other = collections.itemsOf other := by
  simp [itemsOf, putItems, List.lookup_cons, beq_false_of_ne different]

theorem entriesOf_putEntries_self (id : Nat) (entries : List (Value × Value))
    (collections : Collections) : (collections.putEntries id entries).entriesOf id = entries := by
  simp [entriesOf, putEntries]

theorem entriesOf_putEntries_of_ne {id other : Nat} (different : other ≠ id)
    (entries : List (Value × Value)) (collections : Collections) :
    (collections.putEntries id entries).entriesOf other = collections.entriesOf other := by
  simp [entriesOf, putEntries, List.lookup_cons, beq_false_of_ne different]

mutual

def ofJson (collections : Collections) : Json → Value × Collections
  | .null => (.null, collections)
  | .bool value => (.bool value, collections)
  | .int value => (.int value, collections)
  | .double value => (.double value, collections)
  | .text value => (.text value, collections)
  | .array items =>
    let (items, collections) := ofItems collections items
    (.list collections.size, collections.putItems collections.size items)
  | .object fields =>
    let (entries, collections) := ofFields collections fields
    (.dict collections.size, collections.putEntries collections.size entries)

def ofItems (collections : Collections) : List Json → List Value × Collections
  | [] => ([], collections)
  | item :: rest =>
    let (first, collections) := ofJson collections item
    let (others, collections) := ofItems collections rest
    (first :: others, collections)

def ofFields (collections : Collections) :
    List (Text × Json) → List (Value × Value) × Collections
  | [] => ([], collections)
  | (key, value) :: rest =>
    let (first, collections) := ofJson collections value
    let (others, collections) := ofFields collections rest
    ((.text key, first) :: others, collections)

end

end Collections

end Workflow.Yaml
