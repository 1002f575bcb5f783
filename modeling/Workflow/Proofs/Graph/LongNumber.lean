import Mathlib.Order.Bounds.Basic
import Workflow.Proofs.Graph.Coherence

/-! Edits that come to a number which is too long to be written. The counter stands at the first such
number, and but for the counters the graph is what it was. -/

namespace Workflow

namespace Numeral

theorem least_of_limit {limit : Nat} {first last number : Int} (order : first ≤ last)
    (found : (if limit ≤ first.natAbs then some first
      else if limit ≤ last.natAbs then some (limit : Int) else none) = some number) :
    IsLeast {n | first ≤ n ∧ limit ≤ n.natAbs} number ∧ number ≤ last := by
  split at found
  · rename_i long
    obtain rfl := Option.some.inj found
    exact ⟨⟨⟨Int.le_refl _, long⟩, fun n above => above.1⟩, order⟩
  · split at found
    · obtain rfl := Option.some.inj found
      refine ⟨⟨⟨by omega, by simp⟩, ?_⟩, by omega⟩
      rintro n ⟨above, far⟩
      omega
    · exact absurd found (by simp)

theorem writable_eq_false_iff {number : Int} :
    writable number = false ↔ Binary64.tenTo digitLimit ≤ number.natAbs := by
  unfold writable
  exact decide_eq_false_iff_not.trans Nat.not_lt

theorem firstLong?_eq (first last : Int) :
    firstLong? first last =
      if Binary64.tenTo digitLimit ≤ first.natAbs then some first
      else if Binary64.tenTo digitLimit ≤ last.natAbs then some (Binary64.tenTo digitLimit : Int)
      else none := by
  simp only [firstLong?, Bool.not_eq_true', writable_eq_false_iff]

theorem isLeast_of_firstLong? {first last number : Int} (order : first ≤ last)
    (found : firstLong? first last = some number) :
    IsLeast {n | first ≤ n ∧ writable n = false} number ∧ number ≤ last := by
  rw [firstLong?_eq] at found
  simp only [writable_eq_false_iff]
  exact least_of_limit order found

end Numeral

namespace Graph

/-- A graph in which only counters have moved, none of them backwards. -/
structure Recounted (graph left : Graph) : Prop where
  same : left = { graph with
    groupCount := left.groupCount, nodeCount := left.nodeCount, edgeCount := left.edgeCount }
  group : graph.groupCount ≤ left.groupCount
  node : graph.nodeCount ≤ left.nodeCount
  edge : graph.edgeCount ≤ left.edgeCount

variable {operation : Operation} {graph left : Graph} {source : Text}

theorem recounted_of_stuckAtStep? (stuck : graph.stuckAtStep? = some left) :
    graph.Recounted left := by
  obtain ⟨number, found, rfl⟩ := Option.map_eq_some_iff.mp stuck
  have above := (Numeral.isLeast_of_firstLong? (nodeCount_lt_fresh graph) found).1.1.1
  exact ⟨rfl, Int.le_refl _, by simp only; omega, Int.le_refl _⟩

theorem recounted_of_stuckAtEdge? (stuck : graph.stuckAtEdge? = some left) :
    graph.Recounted left := by
  obtain ⟨number, found, rfl⟩ := Option.map_eq_some_iff.mp stuck
  have above := (Numeral.isLeast_of_firstLong? (edgeCount_lt_fresh graph) found).1.1.1
  exact ⟨rfl, Int.le_refl _, Int.le_refl _, by simp only; omega⟩

theorem stuckAtLabel?_eq_some (stuck : graph.stuckAtLabel? source = some left) :
    left = { graph with groupCount := graph.groupCount + 1 } := by
  simp only [stuckAtLabel?, resolveLabel] at stuck
  split at stuck
  · simp at stuck
  · split at stuck
    · exact absurd stuck (by simp)
    · exact (Option.some.inj stuck).symm

theorem recounted_of_stuck (stuck : operation.stuck? graph = some left) : graph.Recounted left := by
  unfold Operation.stuck? at stuck
  cases operation with
  | addStep label position => exact recounted_of_stuckAtStep? stuck
  | nextEdgeId => exact recounted_of_stuckAtEdge? stuck
  | connect source target =>
      rcases Option.or_eq_some_iff.mp stuck with atEdge | ⟨_, atLabel⟩
      · exact recounted_of_stuckAtEdge? atEdge
      · split at atLabel
        · exact absurd atLabel (by simp)
        · have above := edgeCount_lt_fresh graph
          rw [stuckAtLabel?_eq_some atLabel]
          exact ⟨rfl, by simp only [nextEdgeId]; omega, Int.le_refl _, Int.le_of_lt above⟩
  | toggleBranch id =>
      obtain ⟨edge, _, atLabel⟩ := Option.bind_eq_some_iff.mp stuck
      split at atLabel
      · exact absurd atLabel (by simp)
      · rw [stuckAtLabel?_eq_some atLabel]
        exact ⟨rfl, by simp only; omega, Int.le_refl _, Int.le_refl _⟩
  | _ => exact absurd stuck (by simp)

/-- An edit comes to its end, or it stops at a number with only counters moved. -/
theorem perform_cases (operation : Operation) (graph : Graph) :
    (operation.stuck? graph = none ∧ graph.perform operation = graph.execute operation) ∨
      (operation.stuck? graph).isSome = true ∧ graph.Recounted (graph.perform operation).1 ∧
        (graph.perform operation).2 = .error .longNumber := by
  cases stuck : operation.stuck? graph with
  | none => exact .inl ⟨rfl, attempt_of_free stuck _⟩
  | some left =>
      rw [perform, attempt_of_stuck stuck]
      exact .inr ⟨rfl, recounted_of_stuck stuck, rfl⟩

theorem Recounted.coherent (moved : graph.Recounted left) (holds : graph.Coherent) :
    left.Coherent := by
  rw [moved.same]
  exact holds.putCounts _ _ _

end Graph

end Workflow
