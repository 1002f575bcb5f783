import Mathlib.Data.List.Find
import Workflow.Proofs.Graph.Refusal

/-! Which graphs are written. Nothing but the reserved nodes, the ends and conditions of edges and the
labels of touched steps decides it, and an unknown end is blamed before anything but the reserved
nodes. -/

namespace Workflow.Graph

/-- A node to which an end of an edge leads: the first one with its id. -/
def Touched (graph : Graph) (node : Node) : Prop :=
  ∃ edge ∈ graph.edges, graph.node? edge.source = some node ∨ graph.node? edge.target = some node

/-- A graph that can be written without guessing. -/
structure Unambiguous (graph : Graph) : Prop where
  entry : (graph.ofKind .entry).length = 1
  terminal : (graph.ofKind .terminal).length = 1
  ends : ∀ edge ∈ graph.edges, edge.source ∈ graph.nodeIds ∧ edge.target ∈ graph.nodeIds
  condition : ∀ first ∈ graph.edges, ∀ second ∈ graph.edges,
    first.isBranch = true → second.isBranch = true → first.source = second.source →
      first.condition = second.condition
  label : ∀ node, graph.Touched node → node.isStep = true →
    node.label ≠ "" ∧ node.label ≠ Spec.startName ∧ node.label ≠ Spec.endName
  owner : ∀ first second, graph.Touched first → graph.Touched second →
    first.isStep = true → second.isStep = true → first.label = second.label → first.id = second.id

def ends (graph : Graph) : List (Text × Text) :=
  graph.edges.flatMap fun edge => [(edge.id, edge.source), (edge.id, edge.target)]

/-- Nodes that are asked for in writing: the reserved ones and those that edges touch. -/
def matters (graph : Graph) (node : Node) : Bool :=
  !node.isStep || graph.edges.any (·.touches node.id)

variable {graph : Graph} {entry terminal : Node} {owner : Text → Text} {violation : Violation}

/-- A relation that leads to one value at most is followed by a function. -/
theorem exists_following {α β : Type} [Inhabited β] {R : α → β → Prop}
    (unique : ∀ a first second, R a first → R a second → first = second) :
    ∃ f : α → β, ∀ a b, R a b → f a = b := by
  classical
  refine ⟨fun a => if known : ∃ b, R a b then known.choose else default, ?_⟩
  intro a b holds
  have known : ∃ b, R a b := ⟨b, holds⟩
  exact (dif_pos known).trans (unique a _ b known.choose_spec holds)

theorem Unambiguous.writable (clear : graph.Unambiguous) :
    ∃ entry terminal owner, graph.Writable entry terminal owner := by
  obtain ⟨entry, first⟩ := List.length_eq_one_iff.mp clear.entry
  obtain ⟨terminal, last⟩ := List.length_eq_one_iff.mp clear.terminal
  have oneCondition (source left right : Text)
      (here : ∃ edge ∈ graph.edges, edge.source = source ∧ edge.condition = some left)
      (there : ∃ edge ∈ graph.edges, edge.source = source ∧ edge.condition = some right) :
      left = right := by
    obtain ⟨one, known, leaves, carried⟩ := here
    obtain ⟨two, present, departs, held⟩ := there
    have same := clear.condition one known two present (by rw [Edge.isBranch, carried]; rfl)
      (by rw [Edge.isBranch, held]; rfl) (leaves.trans departs.symm)
    exact Option.some.inj (carried.symm.trans (same.trans held))
  have oneOwner (label left right : Text)
      (here : ∃ node, graph.Touched node ∧ node.isStep = true ∧ node.label = label ∧ node.id = left)
      (there : ∃ node, graph.Touched node ∧ node.isStep = true ∧ node.label = label ∧
        node.id = right) : left = right := by
    obtain ⟨one, known, step, rfl, rfl⟩ := here
    obtain ⟨two, present, also, same, rfl⟩ := there
    exact clear.owner one two known present step also same.symm
  obtain ⟨label, conditions⟩ := exists_following oneCondition
  obtain ⟨owner, owners⟩ := exists_following oneOwner
  have owns {id : Text} (touched : ∀ node, graph.node? id = some node → graph.Touched node) :
      graph.OwnsLabel owner id := by
    intro node found step
    obtain ⟨filled, notStart, notEnd⟩ := clear.label node (touched node found) step
    exact ⟨filled, notStart, notEnd, owners _ _ ⟨node, touched node found, step, rfl, rfl⟩⟩
  refine ⟨entry, terminal, owner, ⟨first, last, ?_, ?_, label, ?_⟩, ?_⟩
  · exact fun edge member => (clear.ends edge member).1
  · exact fun edge member => (clear.ends edge member).2
  · exact fun edge member condition carried => conditions _ _ ⟨edge, member, rfl, carried⟩
  · intro edge member
    exact ⟨owns fun node found => ⟨edge, member, .inl found⟩,
      owns fun node found => ⟨edge, member, .inr found⟩⟩

theorem Writable.unambiguous (writable : graph.Writable entry terminal owner) :
    graph.Unambiguous := by
  obtain ⟨label, conditions⟩ := writable.condition
  have owned {node : Node} (touched : graph.Touched node) (step : node.isStep = true) :
      node.label ≠ "" ∧ node.label ≠ Spec.startName ∧ node.label ≠ Spec.endName ∧
        owner node.label = node.id := by
    obtain ⟨edge, member, found | found⟩ := touched
    · exact (writable.owns edge member).1 node found step
    · exact (writable.owns edge member).2 node found step
  constructor
  · rw [writable.entry]
    rfl
  · rw [writable.terminal]
    rfl
  · exact fun edge member => ⟨writable.source edge member, writable.target edge member⟩
  · intro first known second present here there same
    obtain ⟨left, carried⟩ := Option.isSome_iff_exists.mp here
    obtain ⟨right, held⟩ := Option.isSome_iff_exists.mp there
    rw [carried, held, ← conditions first known left carried, same,
      conditions second present right held]
  · intro node touched step
    obtain ⟨filled, notStart, notEnd, _⟩ := owned touched step
    exact ⟨filled, notStart, notEnd⟩
  · intro first second here there step also same
    obtain ⟨_, _, _, left⟩ := owned here step
    obtain ⟨_, _, _, right⟩ := owned there also
    rw [← left, same, right]

theorem exists_toDocument_iff {config : Spec.Config} :
    (∃ document, graph.toDocument config = .ok document) ↔ graph.Unambiguous := by
  constructor
  · rintro ⟨document, made⟩
    obtain ⟨entry, terminal, owner, writable, _⟩ := toDocument_eq_ok_iff.mp made
    exact writable.unambiguous
  · intro clear
    obtain ⟨entry, terminal, owner, writable⟩ := clear.writable
    exact ⟨_, toDocument_eq_ok_iff.mpr ⟨entry, terminal, owner, writable, rfl⟩⟩

theorem findSome?_firstUnknown (graph : Graph) (edges : List Edge) :
    edges.findSome? graph.firstUnknown? =
      ((edges.flatMap fun edge => [(edge.id, edge.source), (edge.id, edge.target)]).find?
        fun found => !graph.hasNode found.2).map fun found => .unknownEndpoint found.1 found.2 := by
  induction edges with
  | nil => rfl
  | cons edge rest ih =>
      rw [List.findSome?_cons, List.flatMap_cons, List.cons_append, List.cons_append,
        List.nil_append, List.find?_cons, List.find?_cons, firstUnknown?]
      cases graph.hasNode edge.source with
      | false => rfl
      | true =>
          cases graph.hasNode edge.target with
          | false => rfl
          | true => exact ih

theorem mixed_of_firstMixed? {seen : Table Text} {edges : List Edge}
    (found : firstMixed? seen edges = some violation) :
    ∃ source expected condition, violation = .mixedConditions source expected condition := by
  induction edges generalizing seen with
  | nil => cases found
  | cons edge rest ih =>
      rw [firstMixed?] at found
      split at found
      · exact ih found
      · split at found
        · exact ih found
        · split at found
          · exact ih found
          · exact ⟨_, _, _, (Option.some.inj found).symm⟩

theorem single_of_length {kind : Kind} (wrong : (graph.ofKind kind).length ≠ 1) :
    ∃ found, graph.single kind = .error (.reservedCount kind found) := by
  rw [single]
  split
  · rename_i node only
    exact absurd (congrArg List.length only) wrong
  · exact ⟨_, rfl⟩

theorem checkShape_of_reserved (first : graph.ofKind .entry = [entry])
    (last : graph.ofKind .terminal = [terminal]) :
    graph.checkShape =
      match graph.ends.find? fun found => !graph.hasNode found.2 with
      | some found => .error (.unknownEndpoint found.1 found.2)
      | none =>
        match firstMixed? [] graph.edges with
        | some violation => .error violation
        | none => .ok () := by
  simp only [checkShape, single_eq_ok_iff.mpr first, single_eq_ok_iff.mpr last, bind, Except.bind,
    findSome?_firstUnknown]
  rw [ends]
  cases (graph.edges.flatMap fun edge => [(edge.id, edge.source), (edge.id, edge.target)]).find?
      fun found => !graph.hasNode found.2 with
  | some found => rfl
  | none => cases firstMixed? [] graph.edges <;> rfl

theorem toDocument_of_checkShape {config : Spec.Config}
    (refused : graph.checkShape = .error violation) :
    graph.toDocument config = .error violation := by
  rw [toDocument, refused]
  rfl

theorem checkShape_of_unreserved
    (wrong : ¬((graph.ofKind .entry).length = 1 ∧ (graph.ofKind .terminal).length = 1)) :
    ∃ kind found, graph.checkShape = .error (.reservedCount kind found) := by
  by_cases first : (graph.ofKind .entry).length = 1
  · obtain ⟨entry, only⟩ := List.length_eq_one_iff.mp first
    obtain ⟨found, refused⟩ := single_of_length fun last => wrong ⟨first, last⟩
    exact ⟨.terminal, found, by simp only [checkShape, single_eq_ok_iff.mpr only, refused, bind,
      Except.bind]⟩
  · obtain ⟨found, refused⟩ := single_of_length first
    exact ⟨.entry, found, by simp only [checkShape, refused, bind, Except.bind]⟩

theorem toDocument_unknownEndpoint_iff {config : Spec.Config} {edge node : Text} :
    graph.toDocument config = .error (.unknownEndpoint edge node) ↔
      (graph.ofKind .entry).length = 1 ∧ (graph.ofKind .terminal).length = 1 ∧
        graph.ends.find? (fun found => !graph.hasNode found.2) = some (edge, node) := by
  rw [← and_assoc]
  by_cases reserved : (graph.ofKind .entry).length = 1 ∧ (graph.ofKind .terminal).length = 1
  · rw [and_iff_right reserved]
    obtain ⟨entry, first⟩ := List.length_eq_one_iff.mp reserved.1
    obtain ⟨terminal, last⟩ := List.length_eq_one_iff.mp reserved.2
    have checked := checkShape_of_reserved first last
    cases unknown : graph.ends.find? fun found => !graph.hasNode found.2 with
    | some found =>
        rw [unknown] at checked
        rw [toDocument_of_checkShape checked, Except.error.injEq, Violation.unknownEndpoint.injEq,
          Option.some.injEq, Prod.ext_iff]
    | none =>
        rw [unknown] at checked
        refine iff_of_false ?_ (by simp)
        intro refused
        cases mixed : firstMixed? [] graph.edges with
        | some violation =>
            rw [mixed] at checked
            obtain ⟨source, expected, condition, rfl⟩ := mixed_of_firstMixed? mixed
            cases (toDocument_of_checkShape checked).symm.trans refused
        | none =>
            rw [mixed] at checked
            obtain ⟨entry, terminal, shaped⟩ := checkShape_eq_ok_iff.mp checked
            exact labelError_of_refused shaped refused
  · refine iff_of_false ?_ fun both => reserved both.1
    intro refused
    obtain ⟨kind, found, checked⟩ := checkShape_of_unreserved reserved
    cases (toDocument_of_checkShape checked).symm.trans refused

theorem exists_of_visited (checked : graph.checkShape = .ok ()) {first last id : Text}
    (named : id ∈ visited (graph.directEdges first last) graph.groups) :
    ∃ node, graph.node? id = some node := by
  obtain ⟨_, _, shaped⟩ := checkShape_eq_ok_iff.mp checked
  obtain ⟨edge, member, rfl | rfl⟩ := mem_visited.mp named
  · exact exists_node? (shaped.source edge member)
  · exact exists_node? (shaped.target edge member)

theorem exists_first_of_group {group : Text × List Edge} (member : group ∈ graph.groups) :
    ∃ first rest condition, group.2 = first :: rest ∧ first.condition = some condition := by
  obtain ⟨filled, same⟩ := (gathered_groups graph).members group.1 group.2 member
  obtain ⟨first, rest, equal⟩ := List.exists_cons_of_ne_nil filled
  have inside : first ∈ group.2 := equal ▸ List.mem_cons_self
  rw [same] at inside
  have branch := (List.mem_filter.mp (List.mem_of_mem_filter inside)).2
  obtain ⟨condition, carried⟩ := Option.isSome_iff_exists.mp branch
  exact ⟨first, rest, condition, equal, carried⟩

theorem matters_of_touched {edge : Edge} {id : Text} (member : edge ∈ graph.edges)
    (touched : edge.source = id ∨ edge.target = id) {node : Node} (own : node.id = id) :
    graph.matters node = true := by
  rw [matters, Bool.or_eq_true, List.any_eq_true]
  exact .inr ⟨edge, member, own ▸ touches_iff.mpr touched⟩

/-- The graph without the steps that no edge touches. -/
def pruned (graph : Graph) : Graph := { graph with nodes := graph.nodes.filter graph.matters }

theorem ofKind_pruned {kind : Kind} (reserved : kind ≠ .step) :
    graph.pruned.ofKind kind = graph.ofKind kind := by
  rw [ofKind, pruned, List.filter_filter, ofKind]
  apply List.filter_congr
  intro node _
  cases same : node.kind == kind with
  | false => rfl
  | true =>
      have step : node.isStep = false := by
        rw [Node.isStep, beq_iff_eq.mp same]
        simpa using reserved
      rw [matters, step]
      rfl

theorem node?_pruned {edge : Edge} {id : Text} (member : edge ∈ graph.edges)
    (touched : edge.source = id ∨ edge.target = id) : graph.pruned.node? id = graph.node? id := by
  rw [node?, pruned, List.find?_filter, node?]
  congr 1
  funext node
  cases own : node.id == id with
  | false => simp
  | true => simp [matters_of_touched member touched (beq_iff_eq.mp own)]

theorem collectLabels_pruned {owners : Table Text} {ids : List Text}
    (touched : ∀ id ∈ ids, ∃ edge ∈ graph.edges, edge.source = id ∨ edge.target = id) :
    graph.pruned.collectLabels owners ids = graph.collectLabels owners ids := by
  induction ids generalizing owners with
  | nil => rfl
  | cons id rest ih =>
      obtain ⟨⟨edge, member, here⟩, further⟩ := List.forall_mem_cons.mp touched
      simp only [collectLabels, node?_pruned member here, ih further]

theorem specName_pruned {edge : Edge} {id : Text} (member : edge ∈ graph.edges)
    (touched : edge.source = id ∨ edge.target = id) :
    graph.pruned.specName id = graph.specName id := by
  rw [specName, node?_pruned member touched, specName]

theorem single_pruned {kind : Kind} (reserved : kind ≠ .step) :
    graph.pruned.single kind = graph.single kind := by
  rw [single, ofKind_pruned reserved, single]

theorem checkShape_pruned (graph : Graph) : graph.pruned.checkShape = graph.checkShape := by
  have unknown : graph.pruned.edges.findSome? graph.pruned.firstUnknown? =
      graph.edges.findSome? graph.firstUnknown? := by
    rw [findSome?_firstUnknown, findSome?_firstUnknown]
    apply congrArg
    apply List.find?_congr
    intro found inside
    obtain ⟨edge, (member : edge ∈ graph.edges), named⟩ := List.mem_flatMap.mp inside
    have touched : edge.source = found.2 ∨ edge.target = found.2 := by
      rcases List.mem_cons.mp named with rfl | there
      · exact .inl rfl
      · exact .inr (congrArg Prod.snd (List.mem_singleton.mp there)).symm
    rw [hasNode, node?_pruned member touched, hasNode]
  rw [checkShape, single_pruned (by decide), single_pruned (by decide), unknown, checkShape]
  rfl

theorem directEntry_pruned {edge : Edge} (member : edge ∈ graph.edges) :
    graph.pruned.directEntry edge = graph.directEntry edge := by
  rw [directEntry, specName_pruned member (.inl rfl), specName_pruned member (.inr rfl), directEntry]

theorem groupEntry_pruned {group : Text × List Edge} (member : group ∈ graph.groups) :
    graph.pruned.groupEntry group = graph.groupEntry group := by
  obtain ⟨filled, same⟩ := (gathered_groups graph).members group.1 group.2 member
  have own {edge : Edge} (inside : edge ∈ group.2) : edge ∈ graph.edges ∧ edge.source = group.1 := by
    rw [same] at inside
    obtain ⟨branch, leaves⟩ := List.mem_filter.mp inside
    exact ⟨List.mem_of_mem_filter branch, beq_iff_eq.mp leaves⟩
  obtain ⟨first, rest, equal⟩ := List.exists_cons_of_ne_nil filled
  have known := own (equal ▸ List.mem_cons_self)
  have targets : (group.2.map fun edge => graph.pruned.specName edge.target) =
      group.2.map fun edge => graph.specName edge.target :=
    List.map_congr_left fun edge inside => specName_pruned (own inside).1 (.inr rfl)
  rw [groupEntry, specName_pruned known.1 (.inl known.2), targets, groupEntry]

/-- Without the steps that no edge touches the same is written or refused. -/
theorem toDocument_pruned (graph : Graph) (config : Spec.Config) :
    graph.pruned.toDocument config = graph.toDocument config := by
  rw [toDocument, toDocument, checkShape_pruned, single_pruned (by decide),
    single_pruned (by decide)]
  cases graph.checkShape with
  | error violation => rfl
  | ok _ =>
      cases graph.single .entry with
      | error violation => rfl
      | ok entry =>
          cases graph.single .terminal with
          | error violation => rfl
          | ok terminal =>
              have labels : graph.pruned.collectLabels []
                  (visited (graph.directEdges entry.id terminal.id) graph.groups) =
                    graph.collectLabels []
                      (visited (graph.directEdges entry.id terminal.id) graph.groups) :=
                collectLabels_pruned fun id named => mem_visited.mp named
              have direct : (graph.directEdges entry.id terminal.id).map graph.pruned.directEntry =
                  (graph.directEdges entry.id terminal.id).map graph.directEntry :=
                List.map_congr_left fun edge member =>
                  directEntry_pruned (mem_directEdges.mp member).1
              have groups : graph.groups.map graph.pruned.groupEntry =
                  graph.groups.map graph.groupEntry :=
                List.map_congr_left fun group member => groupEntry_pruned member
              have entries : graph.pruned.groups = graph.groups := rfl
              have drawn : graph.pruned.directEdges entry.id terminal.id =
                graph.directEdges entry.id terminal.id := rfl
              simp only [bind, Except.bind, entries, drawn, labels, direct, groups]

/-- A graph is written just if it is unambiguous, whatever steps no edge touches. Of all violations an
unknown end is blamed exactly where the reserved nodes are right, and it is the first one. Behind the
checks every id that is looked up has its node, and every group its first branch. -/
theorem ambiguous_graphs_refused (graph : Graph) (config : Spec.Config) :
    ((∃ document, graph.toDocument config = .ok document) ↔ graph.Unambiguous) ∧
      (∀ edge node, graph.toDocument config = .error (.unknownEndpoint edge node) ↔
        (graph.ofKind .entry).length = 1 ∧ (graph.ofKind .terminal).length = 1 ∧
          graph.ends.find? (fun found => !graph.hasNode found.2) = some (edge, node)) ∧
      (graph.checkShape = .ok () →
        ∀ first last, ∀ id ∈ visited (graph.directEdges first last) graph.groups,
          ∃ node, graph.node? id = some node) ∧
      (∀ group ∈ graph.groups, ∃ first rest condition,
        group.2 = first :: rest ∧ first.condition = some condition) ∧
      graph.pruned.toDocument config = graph.toDocument config := by
  refine ⟨exists_toDocument_iff, fun edge node => toDocument_unknownEndpoint_iff, ?_, ?_,
    toDocument_pruned graph config⟩
  · exact fun checked first last id named => exists_of_visited checked named
  · exact fun group member => exists_first_of_group member

/-- Two nodes with one id, of which the first is touched, and an untouched step with a reserved name. -/
def doubledStep : Graph :=
  { empty with
    nodes := [.entry, .step "step-1" "A" .origin, .step "step-1" "" .origin, .terminal,
      .step "step-2" Spec.startName .origin]
    edges := [.direct "edge-1" "source" "step-1", .branch "edge-2" "step-1" "end" "kind"] }

/-- The same with edges whose ends are not all known. -/
def strayEdges : Graph :=
  { doubledStep with
    edges := [.direct "edge-1" "source" "step-1", .branch "edge-2" "step-1" "nowhere" "kind",
      .branch "edge-3" "away" "step-2" "kind"] }

theorem ambiguous_graphs_refused_doubled :
    doubledStep.Unambiguous ∧
      doubledStep.pruned.nodes = doubledStep.nodes.take 4 ∧
      strayEdges.toDocument .standard = .error (.unknownEndpoint "edge-2" "nowhere") := by
  obtain ⟨accepted, _⟩ := ambiguous_graphs_refused doubledStep .standard
  obtain ⟨_, blamed, _⟩ := ambiguous_graphs_refused strayEdges .standard
  have made : (doubledStep.toDocument .standard).isOk = true := by decide +kernel
  refine ⟨accepted.mp ?_, by decide +kernel, (blamed "edge-2" "nowhere").mpr ?_⟩
  · cases written : doubledStep.toDocument .standard with
    | error violation =>
        rw [written] at made
        cases made
    | ok document => exact ⟨document, rfl⟩
  · decide +kernel

end Workflow.Graph
