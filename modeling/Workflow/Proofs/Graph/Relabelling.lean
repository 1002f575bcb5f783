import Workflow.Proofs.Graph.Editing

/-! What becomes of a graph when its edges are put under conditions. Edges are replaced one by one
and by their ids; where these are distinct, all edges of a group change at once and no other does. -/

namespace Workflow

/-- Puts an edge under a condition, if it is a chosen one. -/
def Edge.relabel (chosen : Edge → Bool) (label : Text) (edge : Edge) : Edge :=
  if chosen edge then { edge with condition := some label } else edge

namespace Edge

variable (chosen : Edge → Bool) (label : Text) (edge : Edge)

@[simp] theorem id_relabel : (edge.relabel chosen label).id = edge.id := by
  rw [relabel]
  split <;> rfl

@[simp] theorem source_relabel : (edge.relabel chosen label).source = edge.source := by
  rw [relabel]
  split <;> rfl

@[simp] theorem target_relabel : (edge.relabel chosen label).target = edge.target := by
  rw [relabel]
  split <;> rfl

end Edge

namespace Graph

theorem map_eq_self {α : Type} {f : α → α} {items : List α} (same : ∀ item ∈ items, f item = item) :
    items.map f = items :=
  (List.map_congr_left same).trans (List.map_id items)

theorem replaceFirst_eq_map {edges : List Edge} (distinct : (edges.map Edge.id).Nodup) (edge : Edge) :
    replaceFirst edge edges = edges.map fun old => if old.id = edge.id then edge else old := by
  induction edges with
  | nil => rfl
  | cons old rest ih =>
      obtain ⟨unique, others⟩ := List.nodup_cons.mp distinct
      rw [replaceFirst, List.map_cons]
      by_cases same : old.id = edge.id
      · have untouched : (rest.map fun old => if old.id = edge.id then edge else old) = rest := by
          apply map_eq_self
          intro other member
          have different : other.id ≠ edge.id := fun equal =>
            unique (List.mem_map.mpr ⟨other, member, equal.trans same.symm⟩)
          exact if_neg different
        rw [if_pos (beq_iff_eq.mpr same), if_pos same, untouched]
      · rw [if_neg (by simpa using same), if_neg same, ih others]

theorem replaceEdge_eq {graph : Graph} (distinct : graph.edgeIds.Nodup) (edge : Edge) :
    (graph.replaceEdge edge).1 = { graph with
      edges := graph.edges.map fun old => if old.id = edge.id then edge else old } := by
  rw [replaceEdge]
  split
  · rw [replaceFirst_eq_map distinct]
  · rename_i absent
    have untouched : (graph.edges.map fun old => if old.id = edge.id then edge else old) =
        graph.edges := by
      apply map_eq_self
      intro old member
      have different : old.id ≠ edge.id := by
        intro same
        rw [edge?_isSome_iff, ← same] at absent
        exact absent (List.mem_map_of_mem member)
      exact if_neg different
    rw [untouched]

theorem edge?_of_mem {graph : Graph} (distinct : graph.edgeIds.Nodup) {edge : Edge}
    (member : edge ∈ graph.edges) : graph.edge? edge.id = some edge := by
  cases found : graph.edge? edge.id with
  | none => exact absurd (List.find?_eq_none.mp found edge member) (by simp)
  | some other =>
      obtain ⟨known, same⟩ := edge?_eq_some found
      exact congrArg some (List.inj_on_of_nodup_map distinct known member same)

theorem map_id_map {f : Edge → Edge} (keeps : ∀ edge, (f edge).id = edge.id) (edges : List Edge) :
    (edges.map f).map Edge.id = edges.map Edge.id := by
  rw [List.map_map]
  exact List.map_congr_left fun edge _ => keeps edge

theorem replaceEdge_relabel {graph : Graph} (distinct : graph.edgeIds.Nodup) {edge old : Edge}
    (member : old ∈ graph.edges) (id : old.id = edge.id) (source : old.source = edge.source)
    (target : old.target = edge.target) (label : Text) :
    (graph.replaceEdge { edge with condition := some label }).1 =
      { graph with edges := graph.edges.map (Edge.relabel (·.id = edge.id) label) } := by
  rw [replaceEdge_eq distinct]
  congr 1
  apply List.map_congr_left
  intro other inside
  rw [Edge.relabel]
  by_cases same : other.id = edge.id
  · obtain rfl := List.inj_on_of_nodup_map distinct inside member (same.trans id.symm)
    simp only [same, source, target, decide_true, ↓reduceIte]
  · simp only [same, decide_false, Bool.false_eq_true, ↓reduceIte]

theorem recondition_eq {graph : Graph} (distinct : graph.edgeIds.Nodup) (label : Text)
    {members : List Edge}
    (known : ∀ edge ∈ members, ∃ old ∈ graph.edges,
      old.id = edge.id ∧ old.source = edge.source ∧ old.target = edge.target) :
    members.foldl (fun graph edge => (graph.replaceEdge { edge with condition := some label }).1)
        graph =
      { graph with
        edges := graph.edges.map (Edge.relabel (fun old => old.id ∈ members.map Edge.id) label) } := by
  induction members generalizing graph with
  | nil =>
      have untouched : graph.edges.map (Edge.relabel (fun _ => false) label) = graph.edges :=
        map_eq_self fun _ _ => rfl
      simp [untouched]
  | cons edge rest ih =>
      obtain ⟨old, member, id, source, target⟩ := known edge List.mem_cons_self
      -- The first one is replaced; the others are found again by their ids, which stay.
      rw [List.foldl_cons, replaceEdge_relabel distinct member id source target, ih]
      · congr 1
        rw [List.map_map]
        apply List.map_congr_left
        intro other _
        simp only [Function.comp_apply, Edge.relabel, List.map_cons, List.mem_cons]
        by_cases same : other.id = edge.id <;> simp [same]
      · rw [edgeIds, map_id_map (Edge.id_relabel _ _)]
        exact distinct
      · intro other inside
        obtain ⟨known, member, ends⟩ := known other (List.mem_cons_of_mem _ inside)
        refine ⟨known.relabel (·.id = edge.id) label, List.mem_map_of_mem member, ?_⟩
        rw [Edge.id_relabel, Edge.source_relabel, Edge.target_relabel]
        exact ends

theorem recondition_filter {graph : Graph} (distinct : graph.edgeIds.Nodup) (chosen : Edge → Bool)
    (label : Text) :
    (graph.edges.filter chosen).foldl
        (fun graph edge => (graph.replaceEdge { edge with condition := some label }).1) graph =
      { graph with edges := graph.edges.map (Edge.relabel chosen label) } := by
  rw [recondition_eq distinct label fun edge member =>
    ⟨edge, List.mem_of_mem_filter member, rfl, rfl, rfl⟩]
  congr 1
  apply List.map_congr_left
  intro edge member
  have own : edge.id ∈ (graph.edges.filter chosen).map Edge.id ↔ chosen edge = true := by
    constructor
    · intro inside
      obtain ⟨other, kept, same⟩ := List.mem_map.mp inside
      obtain ⟨known, holds⟩ := List.mem_filter.mp kept
      obtain rfl := List.inj_on_of_nodup_map distinct known member same
      exact holds
    · exact fun holds => List.mem_map_of_mem (List.mem_filter.mpr ⟨member, holds⟩)
  simp only [Edge.relabel, own, Bool.decide_eq_true]

theorem promote_eq {graph : Graph} (distinct : graph.edgeIds.Nodup) (source label : Text) :
    graph.promote source label = { graph with
      edges := graph.edges.map (Edge.relabel (·.source == source) label)
      conditionLabels := graph.conditionLabels.put source label } := by
  rw [promote]
  simp only [outgoing, recondition_filter distinct]

theorem edge?_promote {graph : Graph} (distinct : graph.edgeIds.Nodup) {edge : Edge}
    (member : edge ∈ graph.edges) (label : Text) :
    (graph.promote edge.source label).edge? edge.id =
      some { edge with condition := some label } := by
  have own : edge.relabel (·.source == edge.source) label =
      { edge with condition := some label } := if_pos (beq_self_eq_true edge.source)
  have ids : (graph.promote edge.source label).edgeIds.Nodup := by
    rw [promote_eq distinct, edgeIds, map_id_map (Edge.id_relabel _ _)]
    exact distinct
  have inside : { edge with condition := some label } ∈
      (graph.promote edge.source label).edges := by
    rw [promote_eq distinct, ← own]
    exact List.mem_map_of_mem member
  exact edge?_of_mem ids inside

theorem renameCondition_known {graph : Graph} (distinct : graph.edgeIds.Nodup) {source : Text}
    (known : graph.hasNode source = true) {label : Text} (filled : Text.trimBlanks label ≠ "") :
    (graph.renameCondition source label).1 = { graph with
      edges := graph.edges.map
        (Edge.relabel (fun edge => edge.isBranch && edge.source == source) (Text.trimBlanks label))
      conditionLabels := graph.conditionLabels.put source (Text.trimBlanks label) } := by
  have some : (Text.trimBlanks label).isEmpty = false := by simpa using filled
  simp only [renameCondition, some, known, Bool.not_true, Bool.false_eq_true, ↓reduceIte, outgoing,
    List.filter_filter]
  exact @recondition_filter { graph with
    conditionLabels := graph.conditionLabels.put source (Text.trimBlanks label) } distinct _ _

theorem renameCondition_cases {graph : Graph} (distinct : graph.edgeIds.Nodup)
    (source label : Text) :
    (graph.renameCondition source label).1 = graph ∨
      Text.trimBlanks label ≠ "" ∧ (graph.renameCondition source label).1 = { graph with
        edges := graph.edges.map
          (Edge.relabel (fun edge => edge.isBranch && edge.source == source) (Text.trimBlanks label))
        conditionLabels := graph.conditionLabels.put source (Text.trimBlanks label) } := by
  by_cases filled : Text.trimBlanks label = ""
  · simp [renameCondition, filled]
  · cases known : graph.hasNode source with
    | true => exact .inr ⟨filled, renameCondition_known distinct known filled⟩
    | false => simp [renameCondition, filled, known]

theorem exists_groupLabel {graph : Graph} {source : Text} {edge : Edge}
    (member : edge ∈ graph.outgoing source) (branch : edge.isBranch = true) :
    ∃ label, graph.groupLabel source = some label := by
  have found : ((graph.outgoing source).findSome? Edge.condition).isSome = true :=
    List.findSome?_isSome_iff.mpr ⟨edge, member, branch⟩
  obtain ⟨label, same⟩ := Option.isSome_iff_exists.mp found
  exact ⟨label, by rw [groupLabel, same, Option.some_or]⟩

/-- The label of a source is the one that its group has, unless nobody gave it and no branch carries
it; then it is a new one. -/
theorem resolveLabel_cases (source : Text) (graph : Graph) :
    (∃ label, graph.groupLabel source = some label ∧ label ≠ "" ∧
        graph.resolveLabel source = (graph, label)) ∨
      (isGenericLabel (graph.groupLabel source) = true ∧
        (∀ edge ∈ graph.outgoing source, edge.isBranch = true → graph.groupLabel source = some "") ∧
        graph.resolveLabel source = ({ graph with groupCount := graph.groupCount + 1 },
          genericLabel (graph.groupCount + 1))) := by
  rw [resolveLabel]
  cases current : graph.groupLabel source with
  | none =>
      refine .inr ⟨rfl, ?_, by simp [isGenericLabel]⟩
      intro edge member branch
      obtain ⟨label, found⟩ := exists_groupLabel member branch
      exact absurd (current.symm.trans found) (by simp)
  | some label =>
      by_cases empty : label = ""
      · subst empty
        exact .inr ⟨rfl, fun _ _ _ => rfl, by simp [isGenericLabel]⟩
      · simp only [Option.getD_some]
        split
        · exact .inl ⟨label, rfl, empty, rfl⟩
        · rename_i unsettled
          simp only [Bool.or_eq_true, Bool.not_eq_true', Bool.and_eq_true, not_or, not_and,
            Bool.not_eq_false, Text.isEmpty_eq_false_iff, not_not] at unsettled
          refine .inr ⟨unsettled.1, ?_, rfl⟩
          intro edge member branch
          exact absurd (unsettled.2 (List.any_eq_true.mpr ⟨edge, member, branch⟩)) empty

theorem resolveLabel_nextEdgeId (source : Text) (graph : Graph) :
    graph.nextEdgeId.1.resolveLabel source =
      ({ graph with
          groupCount := (graph.resolveLabel source).1.groupCount
          edgeCount := graph.freshEdgeNumber }, (graph.resolveLabel source).2) := by
  have same : graph.nextEdgeId.1.groupLabel source = graph.groupLabel source := rfl
  simp only [resolveLabel, same]
  split <;> rename_i settled
  · rw [if_pos (by exact settled)]
    rfl
  · rw [if_neg (by exact settled)]
    rfl

theorem addEdge_of_known {edge : Edge} {graph : Graph} (source : graph.hasNode edge.source = true)
    (target : graph.hasNode edge.target = true) :
    graph.addEdge edge = ({ graph with edges := graph.edges ++ [edge] }, .ok ()) := by
  simp only [addEdge, source, target, Bool.not_true, Bool.false_eq_true, ↓reduceIte]

theorem addEdge_of_unknown {edge : Edge} {graph : Graph}
    (unknown : ¬(graph.hasNode edge.source = true ∧ graph.hasNode edge.target = true)) :
    ∃ fault, graph.addEdge edge = (graph, .error fault) := by
  rw [addEdge]
  cases source : graph.hasNode edge.source with
  | false => exact ⟨_, rfl⟩
  | true =>
      cases target : graph.hasNode edge.target with
      | false => exact ⟨_, rfl⟩
      | true => exact absurd ⟨source, target⟩ unknown

def nextEdge (source target : Text) (graph : Graph) : Edge :=
  .direct (edgeId graph.freshEdgeNumber) source target

theorem nodup_nextEdge {graph : Graph} (distinct : graph.edgeIds.Nodup) (source target : Text) :
    ((graph.edges ++ [graph.nextEdge source target]).map Edge.id).Nodup := by
  rw [List.map_append, List.nodup_append]
  refine ⟨distinct, List.nodup_singleton _, ?_⟩
  intro id member other new same
  obtain rfl := List.mem_singleton.mp new
  rw [same] at member
  exact freshEdgeNumber_free graph member

def numbered (source : Text) (graph : Graph) : Graph :=
  { graph with
    groupCount :=
      if graph.outgoing source = [] then graph.groupCount
      else (graph.resolveLabel source).1.groupCount
    edgeCount := graph.freshEdgeNumber }

def extended (source target : Text) (graph : Graph) : Graph :=
  { graph.numbered source with edges := graph.edges ++ [graph.nextEdge source target] }

theorem connect_of_unknown {graph : Graph} {source target : Text}
    (unknown : ¬(graph.hasNode source = true ∧ graph.hasNode target = true)) :
    ∃ fault, graph.connect source target = (graph.numbered source, .error fault) := by
  obtain ⟨fault, refused⟩ := @addEdge_of_unknown (graph.nextEdge source target)
    (graph.numbered source) unknown
  rw [nextEdge] at refused
  refine ⟨fault, ?_⟩
  by_cases alone : graph.outgoing source = []
  · simp only [numbered, alone, ↓reduceIte] at refused ⊢
    simp only [connect, alone, List.isEmpty_nil, ↓reduceIte, nextEdgeId, refused]
  · simp only [numbered, alone, ↓reduceIte] at refused ⊢
    simp only [connect, List.isEmpty_eq_false_iff.mpr alone, Bool.false_eq_true, ↓reduceIte,
      resolveLabel_nextEdgeId]
    simp only [nextEdgeId, refused]

theorem connect_first_known {graph : Graph} {source target : Text}
    (alone : graph.outgoing source = []) (first : graph.hasNode source = true)
    (last : graph.hasNode target = true) :
    graph.connect source target =
      (graph.extended source target, .ok (graph.nextEdge source target)) := by
  have added := @addEdge_of_known (graph.nextEdge source target) (graph.numbered source) first last
  rw [extended]
  rw [nextEdge] at added ⊢
  simp only [numbered, alone, ↓reduceIte] at added ⊢
  simp only [connect, alone, List.isEmpty_nil, ↓reduceIte, nextEdgeId, added]

theorem connect_further_known {graph : Graph} {source target : Text}
    (siblings : graph.outgoing source ≠ []) (first : graph.hasNode source = true)
    (last : graph.hasNode target = true) :
    let joined := (graph.extended source target).promote source (graph.resolveLabel source).2
    graph.connect source target = (joined,
      .ok ((joined.edge? (graph.nextEdge source target).id).getD
        (graph.nextEdge source target))) := by
  have added := @addEdge_of_known (graph.nextEdge source target) (graph.numbered source) first last
  rw [extended]
  simp only [nextEdge, numbered, siblings, ↓reduceIte] at added ⊢
  simp only [connect, List.isEmpty_eq_false_iff.mpr siblings, Bool.false_eq_true, ↓reduceIte,
    resolveLabel_nextEdgeId]
  simp only [nextEdgeId, added]
  rfl

theorem connect_first {graph : Graph} {source : Text} (alone : graph.outgoing source = [])
    (target : Text) :
    (graph.connect source target).1 = { graph with edgeCount := graph.freshEdgeNumber } ∨
      (graph.connect source target).1 = { graph with
        edges := graph.edges ++ [graph.nextEdge source target]
        edgeCount := graph.freshEdgeNumber } := by
  by_cases known : graph.hasNode source = true ∧ graph.hasNode target = true
  · right
    rw [connect_first_known alone known.1 known.2, extended, numbered, if_pos alone]
  · left
    obtain ⟨fault, refused⟩ := connect_of_unknown known
    rw [refused, numbered, if_pos alone]

theorem connect_further {graph : Graph} (distinct : graph.edgeIds.Nodup) {source : Text}
    (siblings : graph.outgoing source ≠ []) (target : Text) :
    (graph.connect source target).1 = { graph with
        groupCount := (graph.resolveLabel source).1.groupCount
        edgeCount := graph.freshEdgeNumber } ∨
      (graph.connect source target).1 = { graph with
        edges := (graph.edges ++ [graph.nextEdge source target]).map
          (Edge.relabel (·.source == source) (graph.resolveLabel source).2)
        conditionLabels := graph.conditionLabels.put source (graph.resolveLabel source).2
        groupCount := (graph.resolveLabel source).1.groupCount
        edgeCount := graph.freshEdgeNumber } := by
  by_cases known : graph.hasNode source = true ∧ graph.hasNode target = true
  · right
    have drawn : (graph.extended source target).edgeIds.Nodup :=
      nodup_nextEdge distinct source target
    rw [connect_further_known siblings known.1 known.2, promote_eq drawn, extended, numbered,
      if_neg siblings]
  · left
    obtain ⟨fault, refused⟩ := connect_of_unknown known
    rw [refused, numbered, if_neg siblings]

theorem toggleBranch_branch {graph : Graph} (distinct : graph.edgeIds.Nodup) {id : Text}
    {edge : Edge} (found : graph.edge? id = some edge) (branch : edge.isBranch = true) :
    (graph.toggleBranch id).1 = { graph with
      edges := graph.edges.map fun old =>
        if old.id = edge.id then { edge with condition := none } else old } := by
  simp only [toggleBranch, found, branch, ↓reduceIte]
  exact replaceEdge_eq distinct { edge with condition := none }

theorem toggleBranch_direct {graph : Graph} (distinct : graph.edgeIds.Nodup) {id : Text}
    {edge : Edge} (found : graph.edge? id = some edge) (direct : edge.isBranch = false) :
    (graph.toggleBranch id).1 = { graph with
      edges := graph.edges.map (Edge.relabel (·.id = edge.id) (graph.resolveLabel edge.source).2)
      conditionLabels := graph.conditionLabels.put edge.source (graph.resolveLabel edge.source).2
      groupCount := (graph.resolveLabel edge.source).1.groupCount } := by
  obtain ⟨groups, same⟩ := resolveLabel_eq edge.source graph
  simp only [toggleBranch, found, direct, Bool.false_eq_true, ↓reduceIte, same]
  exact @replaceEdge_relabel { graph with
    conditionLabels := graph.conditionLabels.put edge.source (graph.resolveLabel edge.source).2
    groupCount := groups } distinct _ _ (edge?_eq_some found).1 rfl rfl rfl _

end Graph

end Workflow
