import Mathlib.Order.Bounds.Basic
import Workflow.Proofs.Graph.Coherence

/-! Numbers of new ids. The search for one has no bound of its own, whatever the ids and counters of
the graph; it ends all the same, at the least number above the counter whose id is not in use. -/

namespace Workflow

namespace Graph

/-- A search goes on from a taken number to the next, and ends at a free one. -/
inductive Search (taken : Int → Bool) : Int → Int → Prop where
  | ended {number : Int} (free : taken number = false) : Search taken number number
  | passed {number last : Int} (refused : taken number = true)
      (rest : Search taken (number + 1) last) : Search taken number last

variable {taken : Int → Bool}

theorem Search.isLeast {start last : Int} (search : Search taken start last) :
    IsLeast {number | start ≤ number ∧ taken number = false} last := by
  induction search with
  | ended free => exact ⟨⟨Int.le_refl _, free⟩, fun number other => other.1⟩
  | @passed number last refused rest ih =>
      obtain ⟨⟨above, free⟩, least⟩ := ih
      -- the passed number is taken, so every free one from here on is one from the next on
      refine ⟨⟨by omega, free⟩, ?_⟩
      rintro other ⟨reached, unused⟩
      have different : other ≠ number := by
        rintro rfl
        exact absurd (refused.symm.trans unused) (by decide)
      exact least ⟨by omega, unused⟩

/-- The bound does not cut a search short that has come to a free number. -/
theorem search_firstFree {bound : Nat} {start : Int}
    (free : taken (firstFree taken bound start) = false) :
    Search taken start (firstFree taken bound start) := by
  induction bound generalizing start with
  | zero => exact .ended free
  | succ bound ih =>
      cases here : taken start with
      | false =>
          rw [firstFree, if_neg (by simp [here])]
          exact .ended here
      | true =>
          rw [firstFree, if_pos here] at free ⊢
          exact .passed here (ih free)

theorem search_fresh {name : Int → Text} (different : ∀ m n, name m = name n → m = n)
    {ids : List Text} (known : ∀ n, taken n = true ↔ name n ∈ ids) (count : Int) :
    (∀ last, Search taken (count + 1) last ↔ last = firstFree taken ids.length (count + 1)) ∧
      IsLeast {n | count < n ∧ name n ∉ ids} (firstFree taken ids.length (count + 1)) := by
  have free := firstFree_not_mem different (fun n => (known n).mp) (count + 1)
  have search := search_firstFree free
  have unused : {n | count < n ∧ name n ∉ ids} = {n | count + 1 ≤ n ∧ taken n = false} := by
    ext n
    simp only [Set.mem_ofPred_eq, ← known, Bool.not_eq_true, Int.add_one_le_iff]
  refine ⟨fun last => ⟨fun other => other.isLeast.unique search.isLeast, ?_⟩, ?_⟩
  · rintro rfl
    exact search
  · rw [unused]
    exact search.isLeast

theorem search_freshNodeNumber (graph : Graph) :
    (∀ last, Search (fun n => graph.hasNode (stepId n)) (graph.nodeCount + 1) last ↔
        last = graph.freshNodeNumber) ∧
      IsLeast {n | graph.nodeCount < n ∧ stepId n ∉ graph.nodeIds} graph.freshNodeNumber := by
  have found := search_fresh (fun _ _ => stepId_injective) (fun _ => graph.hasNode_iff)
    graph.nodeCount
  rwa [nodeIds, List.length_map] at found

theorem search_freshEdgeNumber (graph : Graph) :
    (∀ last, Search (fun n => (graph.edge? (edgeId n)).isSome) (graph.edgeCount + 1) last ↔
        last = graph.freshEdgeNumber) ∧
      IsLeast {n | graph.edgeCount < n ∧ edgeId n ∉ graph.edgeIds} graph.freshEdgeNumber := by
  have found := search_fresh (fun _ _ => edgeId_injective) (fun _ => graph.edge?_isSome_iff)
    graph.edgeCount
  rwa [edgeIds, List.length_map] at found

/-- Both searches end, and at one number only. It is the least one above the counter whose id is not in
use; the counter is left at it, and but for the new step the rest of the graph stays as it is. -/
theorem fresh_ids_least (graph : Graph) :
    (∃ number,
      (∀ last, Search (fun n => graph.hasNode (stepId n)) (graph.nodeCount + 1) last ↔
        last = number) ∧
      IsLeast {n | graph.nodeCount < n ∧ stepId n ∉ graph.nodeIds} number ∧
      ∀ label position,
        let node := Node.step (stepId number) (label.getD ("Node " ++ toString number))
          (position.getD .origin)
        graph.addStep label position =
          ({ graph with nodes := graph.nodes ++ [node], nodeCount := number }, node)) ∧
    ∃ number,
      (∀ last, Search (fun n => (graph.edge? (edgeId n)).isSome) (graph.edgeCount + 1) last ↔
        last = number) ∧
      IsLeast {n | graph.edgeCount < n ∧ edgeId n ∉ graph.edgeIds} number ∧
      graph.nextEdgeId = ({ graph with edgeCount := number }, edgeId number) := by
  obtain ⟨nodeEnds, nodeLeast⟩ := search_freshNodeNumber graph
  obtain ⟨edgeEnds, edgeLeast⟩ := search_freshEdgeNumber graph
  exact ⟨⟨graph.freshNodeNumber, nodeEnds, nodeLeast, fun label position => rfl⟩,
    graph.freshEdgeNumber, edgeEnds, edgeLeast, rfl⟩

example : ({ Graph.empty with
    edges := [.direct "edge--1" "source" "end", .direct "edge-0-1" "source" "end"]
    edgeCount := -2 } : Graph).nextEdgeId.2 = "edge-0" := by decide +kernel

end Graph

end Workflow
