import Workflow.Yaml.Node.Revision
import Workflow.Yaml.Value.Scalar

/-! From nodes to values. A collection is filled only after all collections that were met before it,
so that those of one level come before those of the next; the first fault on this way counts. -/

namespace Workflow.Yaml

/-- How far a document has been read. -/
structure Assembly where
  revision : Revision
  /-- The values of nodes that are not scalars, as far as they have been met. -/
  known : List (Nat × Value)
  /-- Collections that are still to be filled, the latest first. -/
  waiting : List Node
  collections : Collections

abbrev Assembling (α : Type) := StateT Assembly (Except Error) α

namespace Assembling

def remember (id : Nat) (value : Value) : Assembling Unit :=
  modify fun assembly => { assembly with known := (id, value) :: assembly.known }

def await (node : Node) : Assembling Unit :=
  modify fun assembly => { assembly with waiting := node :: assembly.waiting }

def putItems (id : Nat) (items : List Value) : Assembling Unit :=
  modify fun assembly => { assembly with collections := assembly.collections.putItems id items }

def putEntries (id : Nat) (entries : List (Value × Value)) : Assembling Unit :=
  modify fun assembly => { assembly with collections := assembly.collections.putEntries id entries }

def reference (tag : Tag) (id : Nat) : Value :=
  match tag with
  | .map => .dict id
  | .set => .set id
  | _ => .list id

def ofText (revision : Revision) (tag : Tag) (node : Node) : Except Error Value :=
  match revision.text (revision.document.count + 1) node with
  | .error fault => .error fault
  | .ok text =>
    if tag == .timestamp && !node.isScalar then .error .mappedTime
    else Value.ofScalar node.id tag text

/-- The value of a node. Every node has one value, however often it is met. -/
def value (node : Node) : Assembling Value := do
  let assembly ← get
  let node := assembly.revision.document.resolve node
  match assembly.known.lookup node.id with
  | some value => return value
  | none =>
    let tag := assembly.revision.tagOf node
    if tag.isCollection then
      remember node.id (reference tag node.id)
      await node
      return reference tag node.id
    else if tag.isScalar then
      let value ← ofText assembly.revision tag node
      unless node.isScalar do remember node.id value
      return value
    else throw .malformed

/-- Only values that are not collections can be keys. -/
def key (node : Node) : Assembling Value := do
  let value ← value node
  if value.isKey then return value else throw .malformed

def field (entry : Node × Node) : Assembling (Value × Value) := do
  let key ← key entry.1
  return (key, ← value entry.2)

def pair (list : Nat) (place : Nat) (node : Node) : Assembling Value := do
  match (← get).revision.entries? node with
  | some [(key, content)] => return .pair list place (← value key) (← value content)
  | _ => throw .malformed

def fields (id : Nat) (written : List (Node × Node)) : Assembling (List (Value × Value)) := do
  let assembly ← get
  let revision ← assembly.revision.settle id written
  set { assembly with revision := revision }
  return Value.ofEntries (← (revision.entriesOf id written).mapM field)

def fill (node : Node) : Assembling Unit := do
  match (← get).revision.tagOf node, node with
  | .seq, .sequence id _ items => putItems id (← items.mapM value)
  | .omap, .sequence id _ items | .pairs, .sequence id _ items =>
    putItems id (← items.zipIdx.mapM fun (item, place) => pair id place item)
  | .map, .mapping id _ written => putEntries id (← fields id written)
  | .set, .mapping id _ written => putItems id ((← fields id written).map Prod.fst)
  | _, _ => throw .malformed

/-- Fills collections, then those met on the way, and so on. -/
def fillLevels : Nat → List Node → Assembling Unit
  | 0, _ | _, [] => return ()
  | fuel + 1, node :: rest => do
    (node :: rest).forM fill
    let met := (← get).waiting.reverse
    modify fun assembly => { assembly with waiting := [] }
    fillLevels fuel met

/-- The value of a document; every level has nodes of its own, so their number bounds the levels. -/
def document (document : Document) : Assembling Value := do
  let root ← value document.root
  let met := (← get).waiting.reverse
  modify fun assembly => { assembly with waiting := [] }
  fillLevels (document.count + 1) met
  return root

end Assembling

namespace Document

def meaning (document : Document) : Except Error (Value × Collections) :=
  let start : Assembly := ⟨.ofDocument document, [], [], .empty⟩
  ((Assembling.document document).run start).map fun (root, assembly) =>
    (root, assembly.collections)

end Document

end Workflow.Yaml
