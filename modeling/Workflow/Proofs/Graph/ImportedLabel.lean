import Workflow.Proofs.Graph.FreshLabel
import Workflow.Proofs.Graph.Imported

/-! Labels from the counter of an imported graph. They differ from each other and from all that come
from the counter later, but the counter does not know the names of routers: a label taken from it can
be the name of one, and of nothing else. -/

namespace Workflow

namespace Compiled

variable {compiled : Compiled} {links : List Link} {source other label : Text} {graph : Graph}

theorem labelOf_unrouted (member : source ∈ compiled.unrouted links) :
    compiled.labelOf links source =
      genericLabel ((compiled.unrouted links).idxOf source + 1 : Nat) := by
  rw [labelOf, (mem_unrouted.mp member).2, Option.getD_none]

theorem labelOf_inj (member : source ∈ compiled.unrouted links)
    (same : compiled.labelOf links source = compiled.labelOf links other)
    (outside : compiled.routerOf links other = none) (grouped : other ∈ compiled.groupSources links) :
    source = other := by
  rw [labelOf_unrouted member, labelOf_unrouted (mem_unrouted.mpr ⟨grouped, outside⟩)] at same
  have places := genericLabel_injective same
  exact (List.idxOf_inj member).mp (by omega)

theorem bears_linked {start : Graph} (borne : (compiled.linked start links).Bears source label) :
    source ∈ compiled.groupSources links ∧ label = compiled.labelOf links source := by
  rcases borne with ⟨edge, inside, rfl, carried⟩ | kept
  · exact isBranch_edgesOf inside carried
  · obtain ⟨known, grouped, same⟩ := List.mem_map.mp kept
    obtain ⟨rfl, rfl⟩ := Prod.mk.inj same
    exact ⟨grouped, rfl⟩

/-- The counter of an imported graph is not behind the labels that come from it. -/
theorem charted_toGraph (found : compiled.toGraph = .ok graph) :
    graph.Charted (compiled.routerOf compiled.links) := by
  refine ⟨(coherent_toGraph found).edges, ?_⟩
  obtain ⟨made, _, rfl⟩ := toGraph_eq_linked found
  intro source number borne
  obtain ⟨grouped, same⟩ := bears_linked borne
  cases routed : compiled.routerOf compiled.links source with
  | some router =>
      rw [labelOf, routed, Option.getD_some] at same
      exact .inr (congrArg some same.symm)
  | none =>
      have member := mem_unrouted.mpr ⟨grouped, routed⟩
      have place := List.idxOf_lt_length_of_mem member
      rw [labelOf_unrouted member] at same
      have number := genericLabel_injective same
      have count : (compiled.linked { Graph.empty with
          nodes := .entry :: .terminal :: made, nodeCount := made.length } compiled.links).groupCount =
        (compiled.unrouted compiled.links).length := rfl
      exact .inl (by omega)

/-- A label that the import takes from the counter is on a branch of another node just if the router of
that node is called so; and an edit takes no label that is on a branch, unless the router of its source
is called so. -/
theorem imported_label_apart (found : compiled.toGraph = .ok graph) :
    (∀ source ∈ compiled.unrouted compiled.links, ∃ number,
      0 < number ∧ number ≤ graph.groupCount ∧
        graph.conditionLabels.get? source = some (genericLabel number) ∧
        ∀ edge ∈ graph.edges, edge.source ≠ source →
          (edge.condition = some (genericLabel number) ↔ edge.isBranch = true ∧
            compiled.routerOf compiled.links edge.source = some (genericLabel number))) ∧
      ∀ (operations : List Graph.Operation) (next : Graph.Operation) (label : Text),
        (∀ operation ∈ operations, operation.isEdit = true) →
        (∀ operation ∈ operations, ∀ label ∈ operation.typed, IsOwn label) →
        next.minted (graph.run operations) = some label →
        ∀ edge ∈ (graph.run operations).edges, edge.condition = some label →
          compiled.routerOf compiled.links edge.source = some label := by
  constructor
  · obtain ⟨made, _, rfl⟩ := toGraph_eq_linked found
    intro source member
    have place := List.idxOf_lt_length_of_mem member
    have label := labelOf_unrouted member
    refine ⟨((compiled.unrouted compiled.links).idxOf source + 1 : Nat), by omega,
      Int.ofNat_le.mpr place, ?_, ?_⟩
    · rw [← label]
      exact Table.get?_map_of_mem (mem_unrouted.mp member).1 (compiled.labelOf compiled.links)
    · rw [← label]
      intro edge inside apart
      constructor
      · intro carried
        obtain ⟨grouped, same⟩ := isBranch_edgesOf inside carried
        refine ⟨by rw [Edge.isBranch, carried]; rfl, ?_⟩
        cases routed : compiled.routerOf compiled.links edge.source with
        | some router => rw [same, labelOf, routed, Option.getD_some]
        | none => exact absurd (labelOf_inj member same routed grouped).symm apart
      · rintro ⟨branch, routed⟩
        obtain ⟨condition, carried⟩ := Option.isSome_iff_exists.mp branch
        obtain ⟨_, same⟩ := isBranch_edgesOf inside carried
        rw [carried, same, labelOf, routed, Option.getD_some]
  · intro operations next label allowed own taken edge inside carried
    have charted := Graph.charted_run (charted_toGraph found) allowed own
    exact charted.given_of_minted taken (.inl ⟨edge, inside, rfl, carried⟩)

/-- Two nodes with branches to each other; the router of the first is called like the label that the
counter gives to the second. -/
def crossing : Compiled where
  nodes := [⟨"a", none, none⟩, ⟨"b", none, none⟩, ⟨"c", none, none⟩]
  links := [⟨"a", "b", true⟩, ⟨"b", "a", true⟩, ⟨"c", "a", false⟩, ⟨"__start__", "c", true⟩]
  branches := some [("a", some ["conditional_edge_1"]), ("__start__", some ["conditional_edge_2"])]

def crossed : Graph where
  nodes := [.entry, .terminal, .step "step-1" "a" (Layout.place 4 0),
    .step "step-2" "b" (Layout.place 4 1), .step "step-3" "c" (Layout.place 4 2)]
  edges := [.branch "edge-1" "step-1" "step-2" "conditional_edge_1",
    .branch "edge-2" "step-2" "step-1" "conditional_edge_1", .direct "edge-3" "step-3" "step-1",
    .branch "edge-4" "source" "step-3" "conditional_edge_2"]
  conditionLabels := [("step-1", "conditional_edge_1"), ("step-2", "conditional_edge_1"),
    ("source", "conditional_edge_2")]
  groupCount := 1
  nodeCount := 3
  edgeCount := 4

theorem toGraph_crossing : crossing.toGraph = .ok crossed := by decide +kernel

theorem imported_label_apart_crossing :
    let next : Graph.Operation := .toggleBranch "edge-3"
    crossing.toGraph = .ok crossed ∧ ("step-2" : Text) ∈ crossing.unrouted crossing.links ∧
      crossed.conditionLabels.get? "step-2" = some "conditional_edge_1" ∧
      (∃ edge ∈ crossed.edges, edge.source ≠ "step-2" ∧
        edge.condition = some "conditional_edge_1") ∧
      crossing.routerOf crossing.links "step-1" = some "conditional_edge_1" ∧
      next.minted (crossed.run [.addStep none none]) = some "conditional_edge_2" ∧
      ∀ edge ∈ (crossed.run [.addStep none none]).edges,
        edge.condition = some "conditional_edge_2" →
        crossing.routerOf crossing.links edge.source = some "conditional_edge_2" := by
  intro next
  have taken : next.minted (crossed.run [.addStep none none]) = some "conditional_edge_2" := by
    decide +kernel
  have unrouted : ("step-2" : Text) ∈ crossing.unrouted crossing.links := by decide +kernel
  obtain ⟨imported, edited⟩ := imported_label_apart toGraph_crossing
  obtain ⟨number, _, _, kept, others⟩ := imported "step-2" unrouted
  have label : crossed.conditionLabels.get? "step-2" = some "conditional_edge_1" := by decide
  rw [← Option.some.inj (label.symm.trans kept)] at others
  have carried : ∃ edge ∈ crossed.edges, edge.source ≠ "step-2" ∧
      edge.condition = some "conditional_edge_1" := by decide
  have routed := (others (.branch "edge-1" "step-1" "step-2" "conditional_edge_1")
    (by decide) (by decide)).mp rfl
  exact ⟨toGraph_crossing, unrouted, label, carried, routed.2, taken,
    edited _ next _ (by decide) (by decide) taken⟩

/-- A label from the counter of an import can be on a branch of another node. -/
theorem imported_label_shared :
    ¬∀ (compiled : Compiled) (graph : Graph), compiled.toGraph = .ok graph →
      ∀ source ∈ compiled.unrouted compiled.links, ∀ edge ∈ graph.edges, edge.source ≠ source →
        edge.condition ≠ graph.conditionLabels.get? source := by
  intro apart
  exact apart crossing crossed toGraph_crossing "step-2" (by decide +kernel)
    (.branch "edge-1" "step-1" "step-2" "conditional_edge_1") (by decide) (by decide) (by decide)

end Compiled

end Workflow
