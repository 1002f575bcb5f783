import Workflow.Graph.Layout
import Workflow.Graph.Basic
import Workflow.Spec.Reading

/-! From a specification to a graph. Names that no step has lead to the terminal; they are listed, and
a warning is given of each. -/

namespace Workflow

structure Decoded where
  graph : Graph
  config : Spec.Config
  unresolved : List Text
  warnings : List Text
  deriving DecidableEq, Repr

namespace Spec.Document

def steps (document : Document) : List Node :=
  (document.nodes.zip (Layout.positions document.nodes.length)).zipIdx.map
    fun ((name, position), index) => Node.step (stepId (index + 1)) name position

/-- The id of the node of a name: reserved names first, then the first step so called. -/
def idOf? (document : Document) (name : Text) : Option Text :=
  if name = startName then some Node.entry.id
  else if name = endName then some Node.terminal.id
  else (document.steps.find? (·.label == name)).map Node.id

/-- Where a name leads, with the warning that following it gives. -/
structure Route where
  id : Text
  warning : Option Text
  deriving DecidableEq, Repr

def route (document : Document) (name : Text) : Route :=
  match document.idOf? name with
  | some id => ⟨id, none⟩
  | none => ⟨Node.terminal.id, some ("unknown node " ++ Text.literal name ++
      " in specification, routing edge to " ++ endName)⟩

def resolve (document : Document) (name : Text) : Text := (document.route name).id

theorem resolve_eq (document : Document) (name : Text) :
    document.resolve name = (document.idOf? name).getD Node.terminal.id := by
  rw [resolve, route]
  cases document.idOf? name <;> rfl

/-- The names of an entry in the order in which they are followed. -/
def names : Entry → List Text
  | .direct source target => [source, target]
  | .branch source _ paths => source :: paths

/-- The names that no node bears, each as often as it is followed. -/
def unresolved (document : Document) : List Text :=
  (document.edges.flatMap names).filter fun name => (document.route name).warning.isSome

def warnings (document : Document) : List Text :=
  (document.edges.flatMap names).filterMap fun name => (document.route name).warning

def edgesOf (document : Document) (index : Nat) : Entry → List Edge
  | .direct source target =>
    [.direct (edgeId index) (document.resolve source) (document.resolve target)]
  | .branch source condition paths =>
    paths.zipIdx.map fun (path, place) =>
      .branch (pathId index place) (document.resolve source) (document.resolve path) condition

def conditionsFrom (document : Document) (labels : Table Text) :
    Nat → List Entry → Except ReadFault (Table Text)
  | _, [] => .ok labels
  | index, .direct .. :: rest => conditionsFrom document labels (index + 1) rest
  | index, .branch source condition _ :: rest =>
    let id := document.resolve source
    match labels.get? id with
    | none => conditionsFrom document (labels.put id condition) (index + 1) rest
    | some previous =>
      if previous = condition then conditionsFrom document labels (index + 1) rest
      else .error (.conflict index source condition previous)

def conditions (document : Document) : Except ReadFault (Table Text) :=
  document.conditionsFrom [] 0 document.edges

/-- The digits of a generic label, which may be those of any script; one newline may follow. -/
def genericDigits? (label : Text) : Option (List Char) :=
  let mark := "conditional_edge_".toList
  if mark.isPrefixOf label.chars then
    let rest := label.chars.drop mark.length
    let digits := if rest.getLast? == some '\n' then rest.dropLast else rest
    if digits.isEmpty || !digits.all Text.isDecimalDigit then none else some digits
  else none

def genericNumber (label : Text) : Except ReadFault (Option Int) :=
  match genericDigits? label with
  | none => .ok none
  | some digits =>
    match Numeral.integer? 10 digits with
    | some number => .ok (some number)
    | none => .error (.markup .digitLimit)

def greatestGeneric : List Text → Except ReadFault Int
  | [] => .ok 0
  | label :: rest =>
    match genericNumber label with
    | .error fault => .error fault
    | .ok number => (greatestGeneric rest).map fun others => max (number.getD 0) others

def toGraph (document : Document) : Except ReadFault Decoded := do
  let labels ← document.conditions
  let groupCount ← greatestGeneric (labels.map Prod.snd)
  let edges := (document.edges.zipIdx.map fun (entry, index) => document.edgesOf index entry).flatten
  let graph : Graph :=
    { nodes := .entry :: .terminal :: document.steps
      edges := edges
      conditionLabels := labels
      groupCount := groupCount
      nodeCount := document.nodes.length
      edgeCount := edges.length }
  return ⟨graph, document.config, document.unresolved, document.warnings⟩

end Spec.Document

def Graph.decode [Host] (text : Text) : Except Spec.ReadFault Decoded :=
  match Spec.Document.parse text with
  | .error fault => .error fault
  | .ok document => document.toGraph

end Workflow
