import Workflow.Spec.Fault
import Workflow.Spec.Parts

/-! From a text to the specification that it holds. -/

namespace Workflow.Spec

open Yaml (Value Collections)

variable [Host]

namespace Document

def listUnder (collections : Collections) (entries : List (Value × Value)) (key : Text) :
    Except ReadFault (List Value) :=
  match Value.fieldOf? key entries with
  | none | some .null => .ok []
  | some (.list id) => .ok (collections.itemsOf id)
  | some value => .error (.notList key value.kind)

def readNodes (collections : Collections) : Nat → List Value → Except ReadFault (List Text)
  | _, [] => .ok []
  | index, item :: rest =>
    match Parts.node collections item with
    | .error issues => .error (.malformedNode index issues)
    | .ok name => (readNodes collections (index + 1) rest).map (name :: ·)

/-- An edge is a group of branches if it has a condition and a list of paths. -/
def isBranch (entries : List (Value × Value)) : Bool :=
  (Value.fieldOf? "condition" entries).isSome &&
    match Value.fieldOf? "paths" entries with
    | some (.list _) => true
    | _ => false

def readEdge (collections : Collections) (index : Nat) (item : Value) : Except ReadFault Entry :=
  match item with
  | .dict id =>
    let entries := collections.entriesOf id
    let found :=
      if isBranch entries then Parts.branchEntry collections entries
      else Parts.directEntry collections entries
    found.mapError (.malformedEdge index)
  | _ => .error (.edgeNotMapping index)

def readEdges (collections : Collections) : Nat → List Value → Except ReadFault (List Entry)
  | _, [] => .ok []
  | index, item :: rest =>
    match readEdge collections index item with
    | .error fault => .error fault
    | .ok entry => (readEdges collections (index + 1) rest).map (entry :: ·)

/-- The naming fields that are given; empty ones count as absent. -/
def readFields (collections : Collections) (entries : List (Value × Value)) :
    List Text → Except ReadFault (Table Text)
  | [] => .ok []
  | key :: rest =>
    match Value.fieldOf? key entries with
    | none | some .null | some (.text ⟨[]⟩) => readFields collections entries rest
    | some value =>
      match Value.display collections value with
      | .error fault => .error (.markup fault)
      | .ok text => (readFields collections entries rest).map ((key, text) :: ·)

def ofEntries (collections : Collections) (entries : List (Value × Value)) : Except ReadFault Document := do
  let nodes ← readNodes collections 0 (← listUnder collections entries "nodes")
  let edges ← readEdges collections 0 (← listUnder collections entries "edges")
  let fields ← readFields collections entries Config.keys
  return ⟨Config.ofEntries fields, nodes, edges⟩

def ofValue (collections : Collections) (value : Value) : Except ReadFault Document :=
  match value with
  | .dict id => ofEntries collections (collections.entriesOf id)
  | _ => .error .notMapping

def parse (text : Text) : Except ReadFault Document :=
  match Yaml.load text with
  | .error fault => .error (.markup fault)
  | .ok (value, collections) => ofValue collections value

end Document

end Workflow.Spec
