import Workflow.Graph.Violation
import Workflow.Spec.Document

/-! From a graph to its specification. Edges are written in a fixed order, and steps in the order in
which the edges name them. -/

namespace Workflow

def Node.specName (node : Node) : Text :=
  match node.kind with
  | .entry => Spec.startName
  | .terminal => Spec.endName
  | .step => node.label

namespace Graph

def specName (graph : Graph) (id : Text) : Text := ((graph.node? id).map Node.specName).getD ""

def firstUnknown? (graph : Graph) (edge : Edge) : Option Violation :=
  if !graph.hasNode edge.source then some (.unknownEndpoint edge.id edge.source)
  else if !graph.hasNode edge.target then some (.unknownEndpoint edge.id edge.target)
  else none

/-- The first branch whose condition differs from that of an earlier branch of its source. -/
def firstMixed? (seen : Table Text) : List Edge → Option Violation
  | [] => none
  | edge :: rest =>
    match edge.condition with
    | none => firstMixed? seen rest
    | some condition =>
      match seen.get? edge.source with
      | none => firstMixed? (seen.put edge.source condition) rest
      | some expected =>
        if condition = expected then firstMixed? seen rest
        else some (.mixedConditions edge.source expected condition)

def checkShape (graph : Graph) : Except Violation Unit := do
  let _ ← graph.single .entry
  let _ ← graph.single .terminal
  match graph.edges.findSome? graph.firstUnknown? with
  | some violation => throw violation
  | none =>
    match firstMixed? [] graph.edges with
    | some violation => throw violation
    | none => return ()

def collectLabels (graph : Graph) (owners : Table Text) : List Text → Except Violation (Table Text)
  | [] => .ok owners
  | id :: rest =>
    match graph.node? id with
    | none => collectLabels graph owners rest
    | some node =>
      if !node.isStep then collectLabels graph owners rest
      else if node.label.isEmpty then .error (.emptyLabel node.id)
      else if node.label = Spec.startName ∨ node.label = Spec.endName then
        .error (.reservedLabel node.id node.label)
      else
        match owners.get? node.label with
        | none => collectLabels graph (owners.put node.label node.id) rest
        | some owner =>
          if owner = node.id then collectLabels graph owners rest
          else .error (.sharedLabel owner node.id node.label)

/-- Direct edges in writing order: those of the entry, those to the terminal, the others. -/
def directEdges (graph : Graph) (entry terminal : Text) : List Edge :=
  let direct := graph.edges.filter (!·.isBranch)
  direct.filter (·.source == entry) ++
    direct.filter (fun edge => edge.target == terminal && edge.source != entry) ++
    direct.filter (fun edge => edge.source != entry && edge.target != terminal)

/-- The branches of each source, in the order of the first of them. -/
def groups (graph : Graph) : Table (List Edge) :=
  (graph.edges.filter Edge.isBranch).foldl
    (fun groups edge =>
      Table.put edge.source (((Table.get? edge.source groups).getD []) ++ [edge]) groups) []

def directEntry (graph : Graph) (edge : Edge) : Spec.Entry :=
  .direct (graph.specName edge.source) (graph.specName edge.target)

def groupEntry (graph : Graph) (group : Text × List Edge) : Spec.Entry :=
  .branch (graph.specName group.1) ((group.2.findSome? Edge.condition).getD "")
    (group.2.map fun edge => graph.specName edge.target)

def visited (direct : List Edge) (groups : Table (List Edge)) : List Text :=
  direct.flatMap (fun edge => [edge.source, edge.target]) ++
    groups.flatMap fun (source, members) => source :: members.map Edge.target

def toDocument (graph : Graph) (config : Spec.Config) : Except Violation Spec.Document := do
  graph.checkShape
  let entry ← graph.single .entry
  let terminal ← graph.single .terminal
  let direct := graph.directEdges entry.id terminal.id
  let groups := graph.groups
  let owners ← graph.collectLabels [] (visited direct groups)
  return ⟨config, owners.keys, direct.map graph.directEntry ++ groups.map graph.groupEntry⟩

end Graph

/-- Why a graph has no text. -/
inductive WriteFault where
  | violation (cause : Violation)
  /-- A text of it cannot be tried as a scalar. -/
  | markup (cause : Yaml.Error)
  deriving DecidableEq, Repr

def Graph.encode [Host] (graph : Graph) (config : Spec.Config) (language : Option Text) :
    Except WriteFault Text :=
  match graph.toDocument config with
  | .error cause => .error (.violation cause)
  | .ok document => (document.text language).mapError .markup

theorem Graph.encode_eq_ok_iff [Host] {graph : Graph} {config : Spec.Config} {language : Option Text}
    {text : Text} :
    graph.encode config language = .ok text ↔
      ∃ document, graph.toDocument config = .ok document ∧ document.text language = .ok text := by
  rw [encode]
  cases graph.toDocument config with
  | error violation => simp
  | ok document =>
      have unmapped : (document.text language).mapError WriteFault.markup = .ok text ↔
          document.text language = .ok text := by
        cases document.text language with
        | error cause => exact ⟨nofun, nofun⟩
        | ok written => exact ⟨fun same => congrArg _ (Except.ok.inj same),
            fun same => congrArg _ (Except.ok.inj same)⟩
      simp [unmapped]

/-- The same with any word as language, in the header and in the fields. -/
def Graph.encodeIn [Host] (graph : Graph) (config : Spec.Config) (language : Text) :
    Except WriteFault Text :=
  match graph.toDocument config with
  | .error cause => .error (.violation cause)
  | .ok document => (document.textIn language).mapError .markup

end Workflow
