import Workflow.Graph.Run
import Workflow.Proofs.Graph.Identifier
import Workflow.Proofs.Table

/-! What every edit of a graph keeps: one entry and one terminal, ids that differ, and edges and
labels that belong to nodes which exist. -/

namespace Workflow

namespace Graph

def nodeIds (graph : Graph) : List Text := graph.nodes.map Node.id

def edgeIds (graph : Graph) : List Text := graph.edges.map Edge.id

structure Coherent (graph : Graph) : Prop where
  entry : (graph.ofKind .entry).length = 1
  terminal : (graph.ofKind .terminal).length = 1
  nodes : graph.nodeIds.Nodup
  edges : graph.edgeIds.Nodup
  source : ∀ edge ∈ graph.edges, edge.source ∈ graph.nodeIds
  target : ∀ edge ∈ graph.edges, edge.target ∈ graph.nodeIds
  labels : ∀ id ∈ graph.conditionLabels.keys, id ∈ graph.nodeIds

theorem hasNode_iff {graph : Graph} {id : Text} : graph.hasNode id = true ↔ id ∈ graph.nodeIds := by
  simp [hasNode, node?, nodeIds]

theorem edge?_isSome_iff {graph : Graph} {id : Text} :
    (graph.edge? id).isSome = true ↔ id ∈ graph.edgeIds := by
  simp [edge?, edgeIds]

theorem length_ofKind (kind : Kind) (graph : Graph) :
    (graph.ofKind kind).length = (graph.nodes.map Node.kind).count kind := by
  rw [ofKind, List.count, List.countP_map, List.countP_eq_length_filter]
  rfl

theorem taken_of_firstFree {taken : Int → Bool} {bound : Nat} {number : Int}
    (refused : taken (firstFree taken bound number) = true) (offset : Nat)
    (inside : offset ≤ bound) : taken (number + offset) = true := by
  induction bound generalizing number offset with
  | zero =>
      obtain rfl : offset = 0 := by omega
      simpa [firstFree] using refused
  | succ bound ih =>
      cases here : taken number with
      | false => simp [firstFree, here] at refused
      | true =>
          simp only [firstFree, here, ↓reduceIte] at refused
          cases offset with
          | zero => simpa using here
          | succ offset =>
              have further := ih refused offset (by omega)
              have place : number + ((offset + 1 : Nat) : Int) = number + 1 + offset := by omega
              rw [place]
              exact further

theorem le_firstFree (taken : Int → Bool) (bound : Nat) (number : Int) :
    number ≤ firstFree taken bound number := by
  induction bound generalizing number with
  | zero => exact Int.le_refl number
  | succ bound ih =>
      rw [firstFree]
      split
      · have further := ih (number + 1)
        omega
      · exact Int.le_refl number

theorem firstFree_not_mem {name : Int → Text} (different : ∀ m n, name m = name n → m = n)
    {ids : List Text} {taken : Int → Bool} (known : ∀ n, taken n = true → name n ∈ ids)
    (number : Int) : taken (firstFree taken ids.length number) = false := by
  cases refused : taken (firstFree taken ids.length number) with
  | false => rfl
  | true =>
      let names := (List.range (ids.length + 1)).map fun offset => name (number + (offset : Nat))
      have apart : names.Nodup := by
        refine List.Pairwise.map _ (fun first second unequal same => unequal ?_) List.nodup_range
        have equal := different _ _ same
        omega
      have inside : names ⊆ ids := by
        intro id member
        obtain ⟨offset, small, rfl⟩ := List.mem_map.mp member
        have bounded := List.mem_range.mp small
        exact known _ (taken_of_firstFree refused offset (by omega))
      have tooMany := List.Nodup.length_le_of_subset apart inside
      simp only [names, List.length_map, List.length_range] at tooMany
      omega

theorem freshNodeNumber_free (graph : Graph) : stepId graph.freshNodeNumber ∉ graph.nodeIds := by
  have free := @firstFree_not_mem stepId (fun _ _ => stepId_injective) graph.nodeIds
    (fun number => graph.hasNode (stepId number)) (fun _ => hasNode_iff.mp) (graph.nodeCount + 1)
  rw [nodeIds, List.length_map] at free
  intro member
  rw [← hasNode_iff] at member
  exact absurd (free.symm.trans member) (by decide)

theorem freshEdgeNumber_free (graph : Graph) : edgeId graph.freshEdgeNumber ∉ graph.edgeIds := by
  have free := @firstFree_not_mem edgeId (fun _ _ => edgeId_injective) graph.edgeIds
    (fun number => (graph.edge? (edgeId number)).isSome) (fun _ => edge?_isSome_iff.mp)
    (graph.edgeCount + 1)
  rw [edgeIds, List.length_map] at free
  intro member
  rw [← edge?_isSome_iff] at member
  exact absurd (free.symm.trans member) (by decide)

theorem nodeCount_lt_fresh (graph : Graph) : graph.nodeCount < graph.freshNodeNumber := by
  have bound := le_firstFree (fun number => graph.hasNode (stepId number)) graph.nodes.length
    (graph.nodeCount + 1)
  rw [freshNodeNumber]
  omega

theorem edgeCount_lt_fresh (graph : Graph) : graph.edgeCount < graph.freshEdgeNumber := by
  have bound := le_firstFree (fun number => (graph.edge? (edgeId number)).isSome)
    graph.edges.length (graph.edgeCount + 1)
  rw [freshEdgeNumber]
  omega

theorem freshEdgeNumber_of_free {graph : Graph} (free : edgeId (graph.edgeCount + 1) ∉ graph.edgeIds) :
    graph.freshEdgeNumber = graph.edgeCount + 1 := by
  rw [← edge?_isSome_iff] at free
  rw [freshEdgeNumber]
  cases graph.edges.length with
  | zero => rfl
  | succ bound => rw [firstFree, if_neg free]

theorem Coherent.putCounts {graph : Graph} (holds : graph.Coherent) (groups nodes edges : Int) :
    Coherent { graph with groupCount := groups, nodeCount := nodes, edgeCount := edges } :=
  ⟨holds.entry, holds.terminal, holds.nodes, holds.edges, holds.source, holds.target, holds.labels⟩

theorem Coherent.putLabel {graph : Graph} (holds : graph.Coherent) {id : Text}
    (known : id ∈ graph.nodeIds) (label : Text) :
    Coherent { graph with conditionLabels := graph.conditionLabels.put id label } := by
  refine ⟨holds.entry, holds.terminal, holds.nodes, holds.edges, holds.source, holds.target, ?_⟩
  intro name member
  rcases Table.mem_keys_put member with rfl | old
  · exact known
  · exact holds.labels name old

theorem coherent_addStep {graph : Graph} (holds : graph.Coherent) (label : Option Text)
    (position : Option Position) : (graph.addStep label position).1.Coherent := by
  have kept {id : Text} (member : id ∈ graph.nodeIds) :
      id ∈ (graph.addStep label position).1.nodeIds := by
    simp only [addStep, nodeIds, List.map_append]
    exact List.mem_append_left _ member
  constructor
  · rw [length_ofKind, addStep, List.map_append, List.count_append, ← length_ofKind, holds.entry]
    rfl
  · rw [length_ofKind, addStep, List.map_append, List.count_append, ← length_ofKind, holds.terminal]
    rfl
  · simp only [addStep, nodeIds, List.map_append]
    rw [List.nodup_append]
    refine ⟨holds.nodes, List.nodup_singleton _, ?_⟩
    intro id member other new same
    obtain rfl := List.mem_singleton.mp new
    rw [same] at member
    exact freshNodeNumber_free graph member
  · exact holds.edges
  · exact fun edge member => kept (holds.source edge member)
  · exact fun edge member => kept (holds.target edge member)
  · exact fun id member => kept (holds.labels id member)

theorem map_id_relabelFirst (id label : Text) (nodes : List Node) :
    (relabelFirst id label nodes).map Node.id = nodes.map Node.id := by
  induction nodes with
  | nil => rfl
  | cons node rest ih =>
      rw [relabelFirst]
      split
      · rfl
      · rw [List.map_cons, List.map_cons, ih]

theorem map_kind_relabelFirst (id label : Text) (nodes : List Node) :
    (relabelFirst id label nodes).map Node.kind = nodes.map Node.kind := by
  induction nodes with
  | nil => rfl
  | cons node rest ih =>
      rw [relabelFirst]
      split
      · rfl
      · rw [List.map_cons, List.map_cons, ih]

theorem coherent_renameNode {graph : Graph} (holds : graph.Coherent) (id label : Text) :
    (graph.renameNode id label).1.Coherent := by
  rw [renameNode]
  split
  · have same : nodeIds { graph with nodes := relabelFirst id label graph.nodes } = graph.nodeIds :=
      map_id_relabelFirst id label graph.nodes
    constructor
    · rw [length_ofKind, map_kind_relabelFirst, ← length_ofKind, holds.entry]
    · rw [length_ofKind, map_kind_relabelFirst, ← length_ofKind, holds.terminal]
    · rw [same]
      exact holds.nodes
    · exact holds.edges
    · rw [same]
      exact holds.source
    · rw [same]
      exact holds.target
    · rw [same]
      exact holds.labels
  · exact holds

theorem filter_ofKind {graph : Graph} (holds : graph.Coherent) {node : Node} {kind : Kind}
    (found : node ∈ graph.nodes) (other : node.kind ≠ kind) :
    (graph.nodes.filter (·.id != node.id)).filter (·.kind == kind) = graph.ofKind kind := by
  rw [List.filter_filter, ofKind]
  apply List.filter_congr
  intro candidate member
  cases same : candidate.kind == kind with
  | false => rfl
  | true =>
      have different : candidate.id ≠ node.id := by
        intro equal
        obtain rfl := List.inj_on_of_nodup_map holds.nodes member found equal
        exact other (beq_iff_eq.mp same)
      simpa using different

theorem mem_nodeIds_filter {graph : Graph} {id name : Text} (member : name ∈ graph.nodeIds)
    (different : name ≠ id) : name ∈ (graph.nodes.filter (·.id != id)).map Node.id := by
  obtain ⟨node, found, rfl⟩ := List.mem_map.mp member
  exact List.mem_map_of_mem (List.mem_filter.mpr ⟨found, by simpa using different⟩)

theorem coherent_removeNode {graph : Graph} (holds : graph.Coherent) (id : Text) :
    (graph.removeNode id).1.Coherent := by
  rw [removeNode]
  cases found : graph.node? id with
  | none => exact holds
  | some node =>
      obtain ⟨member, rfl⟩ := node?_eq_some found
      cases step : node.isStep with
      | false =>
          simp only [step, Bool.false_eq_true, ↓reduceIte]
          exact holds
      | true =>
          have kind : node.kind = .step := beq_iff_eq.mp step
          have remaining {edge : Edge} (kept : edge ∈ graph.edges.filter (!·.touches node.id)) :
              edge ∈ graph.edges ∧ edge.source ≠ node.id ∧ edge.target ≠ node.id := by
            obtain ⟨old, apart⟩ := List.mem_filter.mp kept
            simp only [Edge.touches, Bool.not_or, Bool.and_eq_true, Bool.not_eq_true',
              beq_eq_false_iff_ne] at apart
            exact ⟨old, apart⟩
          simp only [step, ↓reduceIte]
          constructor
          · exact (congrArg List.length (filter_ofKind holds member (by simp [kind]))).trans holds.entry
          · exact (congrArg List.length (filter_ofKind holds member (by simp [kind]))).trans
              holds.terminal
          · exact (List.filter_sublist.map Node.id).nodup holds.nodes
          · exact (List.filter_sublist.map Edge.id).nodup holds.edges
          · intro edge kept
            obtain ⟨old, source, _⟩ := remaining kept
            exact mem_nodeIds_filter (holds.source edge old) source
          · intro edge kept
            obtain ⟨old, _, target⟩ := remaining kept
            exact mem_nodeIds_filter (holds.target edge old) target
          · intro name kept
            obtain ⟨old, different⟩ := Table.mem_keys_erase.mp kept
            exact mem_nodeIds_filter (holds.labels name old) different

theorem coherent_addEdge {graph : Graph} (holds : graph.Coherent) {edge : Edge}
    (fresh : edge.id ∉ graph.edgeIds) : (graph.addEdge edge).1.Coherent := by
  rw [addEdge]
  cases source : graph.hasNode edge.source with
  | false => exact holds
  | true =>
      cases target : graph.hasNode edge.target with
      | false => exact holds
      | true =>
          simp only [Bool.not_true, Bool.false_eq_true, ↓reduceIte]
          refine ⟨holds.entry, holds.terminal, holds.nodes, ?_, ?_, ?_, holds.labels⟩
          · simp only [edgeIds, List.map_append, List.nodup_append]
            refine ⟨holds.edges, List.nodup_singleton _, ?_⟩
            intro id member other new same
            obtain rfl := List.mem_singleton.mp new
            rw [same] at member
            exact fresh member
          · intro other member
            rcases List.mem_append.mp member with old | new
            · exact holds.source other old
            · obtain rfl := List.mem_singleton.mp new
              exact hasNode_iff.mp source
          · intro other member
            rcases List.mem_append.mp member with old | new
            · exact holds.target other old
            · obtain rfl := List.mem_singleton.mp new
              exact hasNode_iff.mp target

theorem map_id_replaceFirst (edge : Edge) (edges : List Edge) :
    (replaceFirst edge edges).map Edge.id = edges.map Edge.id := by
  induction edges with
  | nil => rfl
  | cons old rest ih =>
      rw [replaceFirst]
      split
      · rename_i same
        rw [List.map_cons, List.map_cons, beq_iff_eq.mp same]
      · rw [List.map_cons, List.map_cons, ih]

theorem mem_replaceFirst {edge other : Edge} {edges : List Edge}
    (member : other ∈ replaceFirst edge edges) : other = edge ∨ other ∈ edges := by
  induction edges with
  | nil => exact absurd member List.not_mem_nil
  | cons old rest ih =>
      rw [replaceFirst] at member
      split at member
      · rcases List.mem_cons.mp member with new | kept
        · exact .inl new
        · exact .inr (List.mem_cons_of_mem _ kept)
      · rcases List.mem_cons.mp member with rfl | kept
        · exact .inr List.mem_cons_self
        · rcases ih kept with new | deeper
          · exact .inl new
          · exact .inr (List.mem_cons_of_mem _ deeper)

theorem nodes_replaceEdge (edge : Edge) (graph : Graph) :
    (graph.replaceEdge edge).1.nodes = graph.nodes := by
  rw [replaceEdge]
  split <;> rfl

theorem coherent_replaceEdge {graph : Graph} (holds : graph.Coherent) {edge : Edge}
    (source : edge.source ∈ graph.nodeIds) (target : edge.target ∈ graph.nodeIds) :
    (graph.replaceEdge edge).1.Coherent := by
  rw [replaceEdge]
  split
  · refine ⟨holds.entry, holds.terminal, holds.nodes, ?_, ?_, ?_, holds.labels⟩
    · have same := map_id_replaceFirst edge graph.edges
      rw [edgeIds, same]
      exact holds.edges
    · intro other member
      rcases mem_replaceFirst member with rfl | old
      · exact source
      · exact holds.source other old
    · intro other member
      rcases mem_replaceFirst member with rfl | old
      · exact target
      · exact holds.target other old
  · exact holds

theorem coherent_replaceCondition {graph : Graph} (holds : graph.Coherent) {edge : Edge}
    (source : edge.source ∈ graph.nodeIds) (target : edge.target ∈ graph.nodeIds)
    (condition : Option Text) :
    (graph.replaceEdge { edge with condition := condition }).1.Coherent :=
  coherent_replaceEdge holds source target

theorem coherent_recondition {graph : Graph} (holds : graph.Coherent) (label : Text)
    {edges : List Edge} (known : ∀ edge ∈ edges, edge ∈ graph.edges) :
    (edges.foldl (fun graph edge => (graph.replaceEdge { edge with condition := some label }).1)
      graph).Coherent := by
  have ends : ∀ edge ∈ edges, edge.source ∈ graph.nodeIds ∧ edge.target ∈ graph.nodeIds :=
    fun edge member => ⟨holds.source edge (known edge member), holds.target edge (known edge member)⟩
  clear known
  induction edges generalizing graph with
  | nil => exact holds
  | cons edge rest ih =>
      obtain ⟨source, target⟩ := ends edge List.mem_cons_self
      rw [List.foldl_cons]
      apply ih (coherent_replaceCondition holds source target (some label))
      intro other member
      rw [nodeIds, nodes_replaceEdge]
      exact ends other (List.mem_cons_of_mem _ member)

theorem coherent_removeEdge {graph : Graph} (holds : graph.Coherent) (id : Text) :
    (graph.removeEdge id).1.Coherent := by
  rw [removeEdge]
  cases graph.edge? id with
  | none => exact holds
  | some edge =>
      refine ⟨holds.entry, holds.terminal, holds.nodes, ?_, ?_, ?_, holds.labels⟩
      · exact (List.filter_sublist.map Edge.id).nodup holds.edges
      · exact fun other member => holds.source other (List.mem_of_mem_filter member)
      · exact fun other member => holds.target other (List.mem_of_mem_filter member)

theorem resolveLabel_eq (source : Text) (graph : Graph) :
    ∃ groups, (graph.resolveLabel source).1 = { graph with groupCount := groups } := by
  unfold resolveLabel
  simp only
  split
  · exact ⟨graph.groupCount, rfl⟩
  · exact ⟨graph.groupCount + 1, rfl⟩

theorem coherent_promote {graph : Graph} (holds : graph.Coherent) {source : Text}
    (known : source ∈ graph.nodeIds) (label : Text) : (graph.promote source label).Coherent := by
  have grouped := coherent_recondition holds label fun edge (member : edge ∈ graph.outgoing source) =>
    (mem_outgoing.mp member).1
  have nodes (edges : List Edge) : (edges.foldl (fun graph edge =>
      (Graph.replaceEdge { edge with condition := some label } graph).1) graph).nodes =
        graph.nodes := by
    generalize graph = current
    induction edges generalizing current with
    | nil => rfl
    | cons edge rest ih => rw [List.foldl_cons, ih, nodes_replaceEdge]
  apply grouped.putLabel
  rw [nodeIds, nodes]
  exact known

theorem addEdge_eq_ok {edge : Edge} {graph after : Graph}
    (added : graph.addEdge edge = (after, .ok ())) :
    edge.source ∈ graph.nodeIds ∧ after.nodes = graph.nodes := by
  rw [addEdge] at added
  cases source : graph.hasNode edge.source with
  | false => simp [source] at added
  | true =>
      refine ⟨hasNode_iff.mp source, ?_⟩
      cases target : graph.hasNode edge.target with
      | false => simp [source, target] at added
      | true =>
          simp only [source, target, Bool.not_true, Bool.false_eq_true, ↓reduceIte,
            Prod.mk.injEq, and_true] at added
          rw [← added]

theorem coherent_connect {graph : Graph} (holds : graph.Coherent) (source target : Text) :
    (graph.connect source target).1.Coherent := by
  have free : (Edge.direct (edgeId graph.freshEdgeNumber) source target).id ∉ graph.edgeIds :=
    freshEdgeNumber_free graph
  unfold connect nextEdgeId
  simp only
  split
  · have added := coherent_addEdge
      (holds.putCounts graph.groupCount graph.nodeCount graph.freshEdgeNumber) free
    split
    · rename_i after same
      rwa [same] at added
    · rename_i after fault same
      rwa [same] at added
  · obtain ⟨groups, counted⟩ :=
      resolveLabel_eq source { graph with edgeCount := graph.freshEdgeNumber }
    rw [counted]
    have added := coherent_addEdge
      (holds.putCounts groups graph.nodeCount graph.freshEdgeNumber) free
    split
    · rename_i after fault same
      rwa [same] at added
    · rename_i after same
      rw [same] at added
      obtain ⟨known, nodes⟩ := addEdge_eq_ok same
      apply coherent_promote added
      rw [nodeIds, nodes]
      exact known

theorem coherent_renameCondition {graph : Graph} (holds : graph.Coherent) (source label : Text) :
    (graph.renameCondition source label).1.Coherent := by
  rw [renameCondition]
  simp only
  split
  · exact holds
  · cases known : graph.hasNode source with
    | false => exact holds
    | true =>
        simp only [Bool.not_true, Bool.false_eq_true, ↓reduceIte]
        apply coherent_recondition (holds.putLabel (hasNode_iff.mp known) _)
        intro edge member
        exact (mem_outgoing.mp (List.mem_of_mem_filter member)).1

theorem coherent_toggleBranch {graph : Graph} (holds : graph.Coherent) (id : Text) :
    (graph.toggleBranch id).1.Coherent := by
  rw [toggleBranch]
  cases found : graph.edge? id with
  | none => exact holds
  | some edge =>
      obtain ⟨member, _⟩ := edge?_eq_some found
      have source := holds.source edge member
      have target := holds.target edge member
      simp only
      split
      · exact coherent_replaceCondition holds source target none
      · obtain ⟨groups, counted⟩ := resolveLabel_eq edge.source graph
        rw [counted]
        have labelled := (holds.putCounts groups graph.nodeCount graph.edgeCount).putLabel source
          (graph.resolveLabel edge.source).2
        exact coherent_replaceCondition labelled source target _

end Graph

end Workflow
