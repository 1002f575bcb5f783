import Workflow.Yaml.Tag

/-! Nodes of a document. Every node has a number of its own; an alias of a collection stands for it
by this number, and an alias of a scalar is the scalar itself. -/

namespace Workflow.Yaml

inductive Node where
  | scalar (id : Nat) (tag : Tag) (text : Text)
  | sequence (id : Nat) (tag : Tag) (items : List Node)
  | mapping (id : Nat) (tag : Tag) (entries : List (Node × Node))
  | again (id : Nat)
  deriving Inhabited

/-- A document with the number of its nodes. -/
structure Document where
  root : Node
  count : Nat
  deriving Inhabited

namespace Node

def id : Node → Nat
  | .scalar id _ _ | .sequence id _ _ | .mapping id _ _ | .again id => id

def tag : Node → Tag
  | .scalar _ tag _ | .sequence _ tag _ | .mapping _ tag _ => tag
  | .again _ => .other

def isScalar : Node → Bool
  | .scalar .. => true
  | _ => false

mutual

def find? (wanted : Nat) : Node → Option Node
  | .scalar .. => none
  | .sequence id tag items => if id = wanted then some (.sequence id tag items) else findItem? wanted items
  | .mapping id tag entries =>
    if id = wanted then some (.mapping id tag entries) else findField? wanted entries
  | .again _ => none

def findItem? (wanted : Nat) : List Node → Option Node
  | [] => none
  | item :: rest => (find? wanted item).or (findItem? wanted rest)

def findField? (wanted : Nat) : List (Node × Node) → Option Node
  | [] => none
  | (key, value) :: rest =>
    ((find? wanted key).or (find? wanted value)).or (findField? wanted rest)

end

end Node

namespace Document

/-- The node itself, where an alias stands for it. -/
def resolve (document : Document) : Node → Node
  | .again id => (document.root.find? id).getD (.again id)
  | node => node

end Document

end Workflow.Yaml
