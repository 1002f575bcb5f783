import Workflow.Proofs.Graph.Rebuilt
import Workflow.Proofs.Graph.Writing

/-! Names and ids: in a graph that can be written a name stands for one touched id, and in the graph
of a specification every name leads to the node that bears it. -/

namespace Workflow

theorem Spec.endName_ne_startName : Spec.endName ≠ Spec.startName := by decide

/-- Names of steps; the others are reserved. -/
def Spec.isStepName (name : Text) : Bool := name != Spec.startName && name != Spec.endName

namespace Graph

theorem node?_of_mem {graph : Graph} (distinct : graph.nodeIds.Nodup) {node : Node}
    (member : node ∈ graph.nodes) : graph.node? node.id = some node := by
  cases found : graph.node? node.id with
  | none =>
      have absent := List.find?_eq_none.mp found node member
      simp at absent
  | some other =>
      obtain ⟨known, same⟩ := node?_eq_some found
      exact congrArg some (List.inj_on_of_nodup_map distinct known member same)

theorem exists_node? {graph : Graph} {id : Text} (known : id ∈ graph.nodeIds) :
    ∃ node, graph.node? id = some node := by
  have found := hasNode_iff.mpr known
  exact Option.isSome_iff_exists.mp found

theorem specName_of_node? {graph : Graph} {id : Text} {node : Node}
    (found : graph.node? id = some node) : graph.specName id = node.specName := by
  rw [specName, found]
  rfl

theorem eq_of_ofKind {graph : Graph} {kind : Kind} {only node : Node}
    (single : graph.ofKind kind = [only]) (member : node ∈ graph.nodes) (same : node.kind = kind) :
    node = only := by
  have inside : node ∈ graph.ofKind kind :=
    List.mem_filter.mpr ⟨member, beq_iff_eq.mpr same⟩
  rw [single] at inside
  exact List.mem_singleton.mp inside

def idOfName (entry terminal : Node) (owner : Text → Text) (name : Text) : Text :=
  if name = Spec.startName then entry.id
  else if name = Spec.endName then terminal.id
  else owner name

section

variable {graph : Graph} {entry terminal : Node} {owner : Text → Text}

theorem idOfName_specName (shaped : graph.Shaped entry terminal) {id : Text}
    (known : id ∈ graph.nodeIds) (owns : graph.OwnsLabel owner id) :
    idOfName entry terminal owner (graph.specName id) = id := by
  obtain ⟨node, found⟩ := exists_node? known
  obtain ⟨member, rfl⟩ := node?_eq_some found
  rw [specName_of_node? found, Node.specName, idOfName]
  cases kind : node.kind with
  | entry =>
      obtain rfl := eq_of_ofKind shaped.entry member kind
      exact if_pos rfl
  | terminal =>
      obtain rfl := eq_of_ofKind shaped.terminal member kind
      exact (if_neg Spec.endName_ne_startName).trans (if_pos rfl)
  | step =>
      obtain ⟨_, notStart, notEnd, own⟩ := owns node found (by rw [Node.isStep, kind]; rfl)
      exact (if_neg notStart).trans ((if_neg notEnd).trans own)

theorem Writable.source_owned (writable : graph.Writable entry terminal owner) {edge : Edge}
    (member : edge ∈ graph.edges) :
    idOfName entry terminal owner (graph.specName edge.source) = edge.source :=
  idOfName_specName writable.toShaped (writable.source edge member) (writable.owns edge member).1

theorem Writable.touched_owned (writable : graph.Writable entry terminal owner) {edge : Edge}
    (member : edge ∈ graph.edges) {id : Text} (touched : edge.source = id ∨ edge.target = id) :
    id ∈ graph.nodeIds ∧ graph.OwnsLabel owner id := by
  rcases touched with rfl | rfl
  · exact ⟨writable.source edge member, (writable.owns edge member).1⟩
  · exact ⟨writable.target edge member, (writable.owns edge member).2⟩

theorem stepLabel?_eq {id : Text} (known : id ∈ graph.nodeIds) (owns : graph.OwnsLabel owner id) :
    graph.stepLabel? id = (some (graph.specName id)).filter Spec.isStepName := by
  obtain ⟨node, found⟩ := exists_node? known
  rw [specName_of_node? found, stepLabel?, found, Node.specName, Option.filter_some,
    Option.filter_some]
  cases kind : node.kind with
  | entry =>
      have notStep : node.isStep = false := by rw [Node.isStep, kind]; rfl
      rw [notStep]
      rfl
  | terminal =>
      have notStep : node.isStep = false := by rw [Node.isStep, kind]; rfl
      rw [notStep]
      rfl
  | step =>
      have step : node.isStep = true := by rw [Node.isStep, kind]; rfl
      obtain ⟨_, notStart, notEnd, _⟩ := owns node found step
      have free : Spec.isStepName node.label = true := by
        simp [Spec.isStepName, notStart, notEnd]
      simp only [step, free, ↓reduceIte, Option.map_some]

theorem specName_ne_empty {id : Text} (known : id ∈ graph.nodeIds)
    (owns : graph.OwnsLabel owner id) : graph.specName id ≠ "" := by
  obtain ⟨node, found⟩ := exists_node? known
  rw [specName_of_node? found, Node.specName]
  cases kind : node.kind with
  | entry =>
      show Spec.startName ≠ ""
      decide
  | terminal =>
      show Spec.endName ≠ ""
      decide
  | step => exact (owns node found (by rw [Node.isStep, kind]; rfl)).1

end

end Graph

namespace Spec.Document

variable {document : Document} {labels : Table Text} {groups : Int}

/-- A name that leads to a node of its own. -/
def Knows (document : Document) (name : Text) : Prop :=
  name = startName ∨ name = endName ∨ name ∈ document.nodes

theorem idOf?_isSome {name : Text} (known : document.Knows name) :
    (document.idOf? name).isSome = true := by
  rw [idOf?]
  split
  · rfl
  · split
    · rfl
    · rename_i notStart notEnd
      rcases known with start | stop | member
      · exact absurd start notStart
      · exact absurd stop notEnd
      · rw [← map_label_steps] at member
        obtain ⟨node, inside, same⟩ := List.mem_map.mp member
        rw [Option.isSome_map, List.find?_isSome]
        exact ⟨node, inside, beq_iff_eq.mpr same⟩

theorem nothing_reported (known : ∀ name ∈ document.edges.flatMap names, document.Knows name) :
    document.unresolved = [] ∧ document.warnings = [] := by
  have silent : ∀ name ∈ document.edges.flatMap names, (document.route name).warning = none := by
    intro name member
    obtain ⟨id, found⟩ := Option.isSome_iff_exists.mp (idOf?_isSome (known name member))
    rw [route, found]
  constructor
  · exact List.filter_eq_nil_iff.mpr fun name member => by rw [silent name member]; simp
  · exact List.filterMap_eq_nil_iff.mpr silent

theorem nodup_nodeIds (document : Document) (labels : Table Text) (groups : Int) :
    (document.graphWith labels groups).nodeIds.Nodup := by
  rw [nodeIds_graphWith]
  exact nodup_stepIds _

/-- A known name leads to a node that is written under this name. -/
theorem specName_resolve {name : Text} (known : document.Knows name) :
    (document.graphWith labels groups).specName (document.resolve name) = name := by
  have found (node : Node) (member : node ∈ (document.graphWith labels groups).nodes) :=
    Graph.specName_of_node?
      (Graph.node?_of_mem (nodup_nodeIds document labels groups) member)
  have led := idOf?_isSome known
  rw [resolve_eq]
  unfold idOf? at led ⊢
  split
  · rename_i start
    rw [Option.getD_some, found Node.entry List.mem_cons_self]
    exact start.symm
  · split
    · rename_i stop
      rw [Option.getD_some, found Node.terminal (List.mem_cons_of_mem _ List.mem_cons_self)]
      exact stop.symm
    · rename_i notStart notEnd
      rw [if_neg notStart, if_neg notEnd, Option.isSome_map] at led
      obtain ⟨node, here⟩ := Option.isSome_iff_exists.mp led
      have member := List.mem_of_find?_eq_some here
      have label := List.find?_some here
      rw [here, Option.map_some, Option.getD_some,
        found node (List.mem_cons_of_mem _ (List.mem_cons_of_mem _ member)), Node.specName,
        kind_of_steps member]
      simpa using label

theorem resolve_injective {first second : Text} (left : document.Knows first)
    (right : document.Knows second) (same : document.resolve first = document.resolve second) :
    first = second := by
  have here := @specName_resolve document [] 0 first left
  have there := @specName_resolve document [] 0 second right
  rw [← here, ← there, same]

end Spec.Document

/-- The edges that an entry stands for, by name. -/
def Spec.Entry.spelled : Spec.Entry → List (Text × Text × Option Text)
  | .direct source target => [(source, target, none)]
  | .branch source condition paths => paths.map fun path => (source, path, some condition)

/-- An edge by the names of its ends and its condition; branches have one, direct edges none. -/
def Graph.spell (graph : Graph) (edge : Edge) : Text × Text × Option Text :=
  (graph.specName edge.source, graph.specName edge.target, edge.condition)

end Workflow
