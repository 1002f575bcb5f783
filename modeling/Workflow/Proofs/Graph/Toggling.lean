import Workflow.Proofs.Graph.Connecting

/-! Toggling an edge twice. The second time finds its label in what the first one has left: at the
other branches of the source or among the kept labels. It finds none for the last branch of a generic
group, which so comes back under a new label. -/

namespace Workflow

def Edge.under (condition : Option Text) (edge : Edge) : Edge := { edge with condition := condition }

theorem Edge.under_self {condition : Option Text} {edge : Edge} (same : edge.condition = condition) :
    edge.under condition = edge := by
  rw [under, ← same]

namespace Graph

def place (edge : Edge) (edges : List Edge) : List Edge :=
  edges.map fun old => if old.id = edge.id then edge else old

/-- A graph in which every branch carries a label, the one that is kept for its source. -/
def Settled (graph : Graph) : Prop :=
  ∀ edge ∈ graph.edges, ∀ condition ∈ edge.condition,
    condition ≠ "" ∧ graph.conditionLabels.get? edge.source = some condition

variable {graph : Graph} {edge other : Edge} {edges : List Edge} {condition : Text}

theorem Settled.agreed (settled : graph.Settled) (source : Text) : graph.Agreed source := by
  intro edge member condition carried
  obtain ⟨inside, rfl⟩ := mem_outgoing.mp member
  exact (settled edge inside condition carried).2

theorem map_id_place (edge : Edge) (edges : List Edge) :
    (place edge edges).map Edge.id = edges.map Edge.id := by
  apply map_id_map
  intro old
  split
  · rename_i same
    exact same.symm
  · rfl

theorem nodup_place (distinct : (edges.map Edge.id).Nodup) (edge : Edge) :
    ((place edge edges).map Edge.id).Nodup := by
  rw [map_id_place]
  exact distinct

theorem mem_place : other ∈ place edge edges ↔
    edge.id ∈ edges.map Edge.id ∧ other = edge ∨ other ∈ edges ∧ other.id ≠ edge.id := by
  simp only [place, List.mem_map]
  constructor
  · rintro ⟨old, member, rfl⟩
    by_cases same : old.id = edge.id
    · exact .inl ⟨⟨old, member, same⟩, if_pos same⟩
    · rw [if_neg same]
      exact .inr ⟨member, same⟩
  · rintro (⟨⟨old, member, same⟩, rfl⟩ | ⟨member, different⟩)
    · exact ⟨old, member, if_pos same⟩
    · exact ⟨other, member, if_neg different⟩

theorem place_place (same : other.id = edge.id) (edges : List Edge) :
    place other (place edge edges) = place other edges := by
  rw [place, place, List.map_map]
  apply List.map_congr_left
  intro old _
  by_cases here : old.id = edge.id <;> simp only [Function.comp_apply, here, same, ↓reduceIte]

theorem place_self (distinct : (edges.map Edge.id).Nodup) (member : edge ∈ edges) :
    place edge edges = edges := by
  apply map_eq_self
  intro old inside
  split
  · rename_i same
    exact (List.inj_on_of_nodup_map distinct inside member same).symm
  · rfl

theorem toggleBranch_of_branch (distinct : graph.edgeIds.Nodup) (member : edge ∈ graph.edges)
    (branch : edge.isBranch = true) :
    graph.toggleBranch edge.id =
      ({ graph with edges := place (edge.under none) graph.edges }, .ok (edge.under none)) := by
  simp only [toggleBranch, edge?_of_mem distinct member, branch, ↓reduceIte]
  rw [replaceEdge_eq distinct]
  rfl

theorem toggleBranch_of_direct (distinct : graph.edgeIds.Nodup) (member : edge ∈ graph.edges)
    (direct : edge.isBranch = false) :
    graph.toggleBranch edge.id =
      ({ graph with
          edges := place (edge.under (some (graph.joinLabel edge.source).1)) graph.edges
          conditionLabels := graph.conditionLabels.put edge.source (graph.joinLabel edge.source).1
          groupCount := (graph.joinLabel edge.source).2 },
        .ok (edge.under (some (graph.joinLabel edge.source).1))) := by
  simp only [toggleBranch, edge?_of_mem distinct member, direct, Bool.false_eq_true, ↓reduceIte,
    resolveLabel_eq_joinLabel]
  have placed := @replaceEdge_eq { graph with
    conditionLabels := graph.conditionLabels.put edge.source (graph.joinLabel edge.source).1
    groupCount := (graph.joinLabel edge.source).2 } distinct
    (edge.under (some (graph.joinLabel edge.source).1))
  rw [Edge.under] at placed
  rw [placed]
  rfl

theorem mem_place_under (member : edge ∈ edges) (condition : Option Text) :
    edge.under condition ∈ place (edge.under condition) edges := by
  have known : edge.id ∈ edges.map Edge.id := List.mem_map_of_mem member
  exact mem_place.mpr (.inl ⟨known, rfl⟩)

theorem place_back (distinct : (edges.map Edge.id).Nodup) (member : edge ∈ edges)
    (condition : Option Text) : place edge (place (edge.under condition) edges) = edges := by
  have same : edge.id = (edge.under condition).id := rfl
  rw [place_place same, place_self distinct member]

theorem place_under (distinct : (edges.map Edge.id).Nodup) (member : edge ∈ edges)
    (condition : Option Text) :
    place (edge.under condition) edges =
      edges.map fun old => if old = edge then edge.under condition else old := by
  apply List.map_congr_left
  intro old inside
  have own : old.id = (edge.under condition).id ↔ old = edge :=
    ⟨List.inj_on_of_nodup_map distinct inside member, congrArg Edge.id⟩
  simp only [own]

theorem toggled_twice_of_direct (distinct : graph.edgeIds.Nodup) (member : edge ∈ graph.edges)
    (direct : edge.condition = none) (label : Text) (labels : Table Text) (groups : Int) :
    let once := { graph with
      edges := place (edge.under (some label)) graph.edges
      conditionLabels := labels
      groupCount := groups }
    once.toggleBranch edge.id =
      ({ graph with conditionLabels := labels, groupCount := groups }, .ok edge) := by
  intro once
  have ids : once.edgeIds.Nodup := nodup_place distinct _
  have back : (edge.under (some label)).under none = edge := Edge.under_self direct
  have toggled := toggleBranch_of_branch ids (mem_place_under member (some label)) rfl
  rw [back] at toggled
  refine toggled.trans ?_
  rw [place_back distinct member]

theorem exists_branch_placed (distinct : graph.edgeIds.Nodup) (member : edge ∈ graph.edges) :
    (∃ other ∈ Graph.outgoing edge.source
        { graph with edges := place (edge.under none) graph.edges }, other.isBranch = true) ↔
      ∃ other ∈ graph.outgoing edge.source, other ≠ edge ∧ other.isBranch = true := by
  simp only [mem_outgoing, mem_place]
  constructor
  · rintro ⟨other, ⟨⟨_, rfl⟩ | ⟨inside, different⟩, leaves⟩, branch⟩
    · cases branch
    · refine ⟨other, ⟨inside, leaves⟩, ?_, branch⟩
      rintro rfl
      exact different rfl
  · rintro ⟨other, ⟨inside, leaves⟩, different, branch⟩
    refine ⟨other, ⟨.inr ⟨inside, fun same => different ?_⟩, leaves⟩, branch⟩
    exact List.inj_on_of_nodup_map distinct inside member same

/-- A branch that was made direct finds its label again, unless this is generic and was its own. -/
theorem joinLabel_placed (distinct : graph.edgeIds.Nodup) (settled : graph.Settled)
    (member : edge ∈ graph.edges) (carried : edge.condition = some condition) :
    joinLabel { graph with edges := place (edge.under none) graph.edges } edge.source =
      if IsOwn condition ∨ ∃ other ∈ graph.outgoing edge.source,
          other ≠ edge ∧ other.isBranch = true then
        (condition, graph.groupCount)
      else (genericLabel (graph.groupCount + 1), graph.groupCount + 1) := by
  obtain ⟨filled, kept⟩ := settled edge member condition carried
  have agreed : Agreed { graph with edges := place (edge.under none) graph.edges } edge.source := by
    intro other inside text branch
    obtain ⟨placed, leaves⟩ := mem_outgoing.mp inside
    rcases mem_place.mp placed with ⟨_, rfl⟩ | ⟨old, _⟩
    · cases branch
    · exact settled.agreed edge.source other (mem_outgoing.mpr ⟨old, leaves⟩) text branch
  have found := joinLabel_of_kept agreed kept filled
  simp only [exists_branch_placed distinct member] at found
  exact found

theorem toggled_twice_of_branch (distinct : graph.edgeIds.Nodup) (member : edge ∈ graph.edges) :
    let once := { graph with edges := place (edge.under none) graph.edges }
    once.toggleBranch edge.id =
      ({ graph with
          edges := place (edge.under (some (once.joinLabel edge.source).1)) graph.edges
          conditionLabels := graph.conditionLabels.put edge.source (once.joinLabel edge.source).1
          groupCount := (once.joinLabel edge.source).2 },
        .ok (edge.under (some (once.joinLabel edge.source).1))) := by
  intro once
  have ids : once.edgeIds.Nodup := nodup_place distinct _
  have same : (edge.under (some (once.joinLabel edge.source).1)).id = (edge.under none).id := rfl
  have toggled := toggleBranch_of_direct ids (mem_place_under member none) rfl
  refine toggled.trans ?_
  rw [← place_place same graph.edges]
  rfl

/-- Toggling an edge twice. A direct edge comes back, and only the label kept for its source and the
counter have moved. A branch comes back with the whole graph just if a user named its group or another
branch of the source carries the label; else it comes back under the next generic label. -/
theorem toggled_twice (distinct : graph.edgeIds.Nodup) (settled : graph.Settled)
    (member : edge ∈ graph.edges) :
    ∃ once first twice second,
      graph.toggleBranch edge.id = (once, .ok first) ∧
      once.toggleBranch edge.id = (twice, .ok second) ∧
      (edge.condition = none →
        twice = { graph with
          conditionLabels := graph.conditionLabels.put edge.source (graph.joinLabel edge.source).1
          groupCount := (graph.joinLabel edge.source).2 }) ∧
      ∀ condition, edge.condition = some condition →
        let comesBack := IsOwn condition ∨
          ∃ other ∈ graph.outgoing edge.source, other ≠ edge ∧ other.isBranch = true
        (twice = graph ↔ comesBack) ∧
          (¬comesBack → twice = { graph with
            edges := graph.edges.map fun old =>
              if old = edge then
                { edge with condition := some (genericLabel (graph.groupCount + 1)) }
              else old
            conditionLabels :=
              graph.conditionLabels.put edge.source (genericLabel (graph.groupCount + 1))
            groupCount := graph.groupCount + 1 }) := by
  cases carried : edge.condition with
  | none =>
      have direct : edge.isBranch = false := by rw [Edge.isBranch, carried]; rfl
      refine ⟨_, _, _, _, toggleBranch_of_direct distinct member direct,
        toggled_twice_of_direct distinct member carried _ _ _, fun _ => rfl, ?_⟩
      exact fun condition impossible => absurd impossible (by simp)
  | some condition =>
      have branch : edge.isBranch = true := by rw [Edge.isBranch, carried]; rfl
      refine ⟨_, _, _, _, toggleBranch_of_branch distinct member branch,
        toggled_twice_of_branch distinct member, fun impossible => absurd impossible (by simp), ?_⟩
      intro text same
      obtain rfl := Option.some.inj same
      obtain ⟨_, kept⟩ := settled edge member condition carried
      intro comesBack
      rw [joinLabel_placed distinct settled member carried]
      by_cases back : comesBack
      · have restored : { graph with
            edges := place (edge.under (some condition)) graph.edges
            conditionLabels := graph.conditionLabels.put edge.source condition } = graph := by
          rw [Edge.under_self carried, place_self distinct member, Table.put_of_get? kept]
        rw [if_pos back]
        exact ⟨iff_of_true restored back, fun other => absurd back other⟩
      · rw [if_neg back]
        refine ⟨iff_of_false ?_ back, fun _ => ?_⟩
        · intro equal
          have counts := congrArg groupCount equal
          simp only at counts
          omega
        · rw [place_under distinct member]
          rfl

/-- The last branch of a generic group beside a direct edge, and a group that a user named. -/
def lastBranch : Graph :=
  { empty with
    edges := [.direct "edge-1" "source" "source", .branch "edge-2" "end" "source" "kind",
      .branch "edge-3" "source" "end" "conditional_edge_1"]
    conditionLabels := [("end", "kind"), ("source", "conditional_edge_1")]
    groupCount := 1
    edgeCount := 3 }

theorem toggled_twice_last :
    let edge := Edge.branch "edge-3" "source" "end" "conditional_edge_1"
    lastBranch.edgeIds.Nodup ∧ lastBranch.Settled ∧ edge ∈ lastBranch.edges ∧
      ∃ once first twice second,
        lastBranch.toggleBranch "edge-3" = (once, .ok first) ∧
        once.toggleBranch "edge-3" = (twice, .ok second) ∧
        twice ≠ lastBranch ∧
        twice = { lastBranch with
          edges := [.direct "edge-1" "source" "source", .branch "edge-2" "end" "source" "kind",
            .branch "edge-3" "source" "end" "conditional_edge_2"]
          conditionLabels := [("end", "kind"), ("source", "conditional_edge_2")]
          groupCount := 2 } := by
  intro edge
  have distinct : lastBranch.edgeIds.Nodup := by decide
  have settled : lastBranch.Settled := by
    unfold Settled
    decide
  have member : edge ∈ lastBranch.edges := by decide
  obtain ⟨once, first, twice, second, away, again, _, branch⟩ :=
    toggled_twice distinct settled member
  obtain ⟨restored, renamed⟩ := branch "conditional_edge_1" rfl
  have lost : ¬(IsOwn "conditional_edge_1" ∨
      ∃ other ∈ lastBranch.outgoing "source", other ≠ edge ∧ other.isBranch = true) := by decide
  refine ⟨distinct, settled, member, once, first, twice, second, away, again,
    fun same => lost (restored.mp same), (renamed lost).trans ?_⟩
  decide +kernel

end Graph

end Workflow
