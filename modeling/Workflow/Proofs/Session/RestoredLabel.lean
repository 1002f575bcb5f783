import Workflow.Proofs.Graph.RebuiltLabel
import Workflow.Proofs.Session.Restoring

/-! Labels of groups in a session that is restored from its store. They are kept under a key of their
own that is never read, so what a new session has of them is what the specification says: the condition
of the branches of a source, and nothing of a label kept for direct edges alone. -/

namespace Workflow.Session

variable {session restored : Session} {store : Store} {config other : Spec.Config}

section

variable {document : Spec.Document} {edge : Edge} {node : Node}

/-- What is restored is rebuilt from what was written, be it under other naming fields. -/
theorem rebuilt_of_restore [Host] (committed : session.Committed)
    (projected : session.graph.toDocument session.config = .ok document)
    (spelled : document.IsSpelled)
    (done : (start session.store other).restore = (restored, .ok ())) (filled : restored.spec ≠ "") :
    ∃ entry terminal owner labels groups, session.graph.Writable entry terminal owner ∧
      (session.graph.written document.config.filled entry terminal).conditions = .ok labels ∧
      restored.graph =
        (session.graph.written document.config.filled entry terminal).graphWith labels groups := by
  obtain ⟨text, decoded, stored, found, same⟩ := loaded_of_restore rfl done filled
  obtain rfl := Option.some.inj (committed.stored.symm.trans stored)
  obtain ⟨written, made, spelledText⟩ := Graph.encode_eq_ok_iff.mp committed.spec
  obtain rfl := Except.ok.inj (projected.symm.trans made)
  obtain ⟨entry, terminal, owner, writable, rfl⟩ := Graph.toDocument_eq_ok_iff.mp projected
  rw [Graph.decode, Spec.parse_of_spelled spelled spelledText] at found
  obtain ⟨labels, groups, read, _, rebuilt⟩ := Spec.Document.parts_of_toGraph found
  exact ⟨entry, terminal, owner, labels, groups, writable, read, same.trans rebuilt⟩

theorem exists_twin_restored [Host] (committed : session.Committed)
    (projected : session.graph.toDocument session.config = .ok document)
    (spelled : document.IsSpelled)
    (done : (start session.store other).restore = (restored, .ok ())) (filled : restored.spec ≠ "")
    (member : edge ∈ session.graph.edges) (found : session.graph.node? edge.source = some node) :
    ∃ twin ∈ restored.graph.nodes, node.IsTwin twin := by
  obtain ⟨entry, terminal, owner, labels, groups, writable, _, same⟩ :=
    rebuilt_of_restore committed projected spelled done filled
  rw [same]
  exact Graph.exists_twin writable member found

theorem groupLabel_restored [Host] (committed : session.Committed)
    (projected : session.graph.toDocument session.config = .ok document)
    (spelled : document.IsSpelled)
    (done : (start session.store other).restore = (restored, .ok ())) (filled : restored.spec ≠ "")
    (member : edge ∈ session.graph.edges) (found : session.graph.node? edge.source = some node)
    {twin : Node} (inside : twin ∈ restored.graph.nodes) (isTwin : node.IsTwin twin) :
    restored.graph.groupLabel twin.id =
      (session.graph.outgoing edge.source).findSome? Edge.condition := by
  obtain ⟨entry, terminal, owner, labels, groups, writable, read, same⟩ :=
    rebuilt_of_restore committed projected spelled done filled
  rw [same] at inside ⊢
  rw [Graph.id_of_twin writable member found inside isTwin]
  exact Graph.groupLabel_rebuilt writable read groups member

end

theorem eq_groupLabel_iff {graph : Graph} {source : Text} :
    (graph.outgoing source).findSome? Edge.condition = graph.groupLabel source ↔
      (∃ edge ∈ graph.outgoing source, edge.isBranch = true) ∨
        graph.conditionLabels.get? source = none := by
  rw [Graph.groupLabel]
  cases found : (graph.outgoing source).findSome? Edge.condition with
  | some condition =>
      obtain ⟨edge, member, branch⟩ := List.exists_of_findSome?_eq_some found
      refine iff_of_true (Option.some_or).symm (.inl ⟨edge, member, ?_⟩)
      rw [Edge.isBranch, branch]
      rfl
  | none =>
      rw [Option.none_or]
      constructor
      · exact fun same => .inr same.symm
      · rintro (⟨edge, member, branch⟩ | absent)
        · have direct := List.findSome?_eq_none_iff.mp found edge member
          rw [Edge.isBranch, direct] at branch
          cases branch
        · exact absent.symm

theorem resolveLabel_of_own {graph : Graph} {source : Text}
    (own : isGenericLabel (graph.groupLabel source) = false) :
    (graph.resolveLabel source).2 = (graph.groupLabel source).getD "" := by
  simp [Graph.resolveLabel, own]

/-- Of a session over a working store that is restored after a commit, a source keeps its label if
branches carry it or there is none; a label kept for direct edges alone is lost. A label of the user's
own that is restored is the one for further edges in both sessions. -/
theorem restored_label [Host] (works : store.Works) {operations : List Operation} {operation : Operation}
    (commits : operation.commits = true) {after : Session} {outcome : Outcome}
    (done : ((start store config).run operations).perform operation = (after, .ok outcome))
    {document : Spec.Document} (projected : after.graph.toDocument after.config = .ok document)
    (spelled : document.IsSpelled)
    (restoring : (start after.store other).restore = (restored, .ok ())) (loaded : restored.spec ≠ "")
    {edge : Edge} (member : edge ∈ after.graph.edges) {node : Node}
    (found : after.graph.node? edge.source = some node) :
    (∃ twin ∈ restored.graph.nodes, node.IsTwin twin) ∧
      ∀ twin ∈ restored.graph.nodes, node.IsTwin twin →
        restored.graph.groupLabel twin.id =
            (after.graph.outgoing edge.source).findSome? Edge.condition ∧
          (restored.graph.groupLabel twin.id = after.graph.groupLabel edge.source ↔
            (∃ branch ∈ after.graph.outgoing edge.source, branch.isBranch = true) ∨
              after.graph.conditionLabels.get? edge.source = none) ∧
          (isGenericLabel (restored.graph.groupLabel twin.id) = false →
            (restored.graph.resolveLabel twin.id).2 =
              (after.graph.resolveLabel edge.source).2) := by
  have ran := commits_perform commits ((start store config).run operations)
  rw [done] at ran
  have committed := ran.committed (works_run operations works)
  refine ⟨exists_twin_restored committed projected spelled restoring loaded member found, ?_⟩
  intro twin inside isTwin
  have label :=
    groupLabel_restored committed projected spelled restoring loaded member found inside isTwin
  refine ⟨label, by rw [label]; exact eq_groupLabel_iff, ?_⟩
  intro own
  have same : restored.graph.groupLabel twin.id = after.graph.groupLabel edge.source := by
    cases carried : (after.graph.outgoing edge.source).findSome? Edge.condition with
    | none =>
        rw [label, carried] at own
        cases own
    | some condition => rw [label, Graph.groupLabel, carried, Option.some_or]
  rw [resolveLabel_of_own own, resolveLabel_of_own (same ▸ own), same]

def twoEdges : Graph :=
  { Graph.empty with
    edges := [.branch "edge-1" "source" "end" "kind", .branch "edge-2" "source" "end" "kind"]
    conditionLabels := [("source", "kind")]
    edgeCount := 2 }

section Usual

attribute [local instance] Host.usual

theorem restored_label_branches :
    ∃ after outcome restored,
      ((start (.ofTable []) terse).run [.connect "source" "end", .renameCondition "source" "kind"]).perform
        (.connect "source" "end") = (after, .ok outcome) ∧
      (start after.store terse).restore = (restored, .ok ()) ∧ restored.spec ≠ "" ∧
      ∃ twin ∈ restored.graph.nodes, Node.entry.IsTwin twin ∧
        restored.graph.groupLabel twin.id = some "kind" := by
  let session := (start (.ofTable []) terse).run
    [.connect "source" "end", .renameCondition "source" "kind"]
  have empty : Store.Works (.ofTable []) := fun _ => rfl
  have works : session.store.Works := works_run _ empty
  have facts : (session.perform (.connect "source" "end")).2.isOk = true ∧
      (session.perform (.connect "source" "end")).1.graph = twoEdges ∧
      (session.perform (.connect "source" "end")).1.config = terse ∧
      (session.perform (.connect "source" "end")).1.store.values.keys =
        [Store.specKey, Store.labelsKey] := by decide +kernel
  have projected : twoEdges.toDocument terse =
      .ok ⟨terse, [], [.branch "__start__" "kind" ["__end__", "__end__"]]⟩ := by rfl
  have readable : Spec.Document.IsReadable
      ⟨terse, [], [.branch "__start__" "kind" ["__end__", "__end__"]]⟩ := by
    refine ⟨by decide, ?_, by decide⟩
    simp only [← List.all_eq_true]
    decide +kernel
  obtain ⟨after, outcome, restored, done, _, same, made, restoring, filled⟩ :=
    exists_restored works rfl facts projected readable (by decide) (by decide +kernel)
  have member : Edge.branch "edge-1" "source" "end" "kind" ∈ after.graph.edges := by
    rw [same]
    decide
  have found : after.graph.node? "source" = some .entry := by rw [same]; decide
  obtain ⟨⟨twin, inside, isTwin⟩, labels⟩ :=
    restored_label empty rfl done made readable.spelled restoring filled member found
  obtain ⟨label, _⟩ := labels twin inside isTwin
  refine ⟨after, outcome, restored, done, restoring, filled, twin, inside, isTwin, label.trans ?_⟩
  rw [same]
  decide

end Usual

def oneEdge : Graph :=
  { Graph.empty with
    edges := [.direct "edge-1" "source" "end"]
    conditionLabels := [("source", "kind")]
    edgeCount := 1 }

section Usual

attribute [local instance] Host.usual

/-- A label that was given to the one edge of a source is lost. -/
theorem kept_label_lost :
    ¬∀ (store : Store) (config other : Spec.Config) (operations : List Operation)
      (operation : Operation) (outcome : Outcome) (after restored : Session),
      store.Works → operation.edit?.isSome = true →
      ((start store config).run operations).perform operation = (after, .ok outcome) →
      (start after.store other).restore = (restored, .ok ()) → restored.spec ≠ "" →
      ∀ edge ∈ after.graph.edges, ∀ node, after.graph.node? edge.source = some node →
        ∀ twin ∈ restored.graph.nodes, node.IsTwin twin →
          restored.graph.groupLabel twin.id = after.graph.groupLabel edge.source := by
  intro all
  let session := (start (.ofTable []) terse).run [.connect "source" "end"]
  have works : session.store.Works := works_run _ fun _ => rfl
  have facts : (session.perform (.renameCondition "source" "kind")).2.isOk = true ∧
      (session.perform (.renameCondition "source" "kind")).1.graph = oneEdge ∧
      (session.perform (.renameCondition "source" "kind")).1.config = terse ∧
      (session.perform (.renameCondition "source" "kind")).1.store.values.keys =
        [Store.specKey, Store.labelsKey] := by decide +kernel
  have projected : oneEdge.toDocument terse =
      .ok ⟨terse, [], [.direct "__start__" "__end__"]⟩ := by rfl
  have readable : Spec.Document.IsReadable ⟨terse, [], [.direct "__start__" "__end__"]⟩ := by
    refine ⟨by decide, ?_, by decide⟩
    simp only [← List.all_eq_true]
    decide +kernel
  obtain ⟨after, outcome, restored, done, committed, same, made, restoring, filled⟩ :=
    exists_restored works rfl facts projected readable (by decide) (by decide)
  have member : Edge.direct "edge-1" "source" "end" ∈ after.graph.edges := by rw [same]; decide
  have found : after.graph.node? "source" = some .entry := by rw [same]; decide
  obtain ⟨twin, inside, isTwin⟩ := exists_twin_restored committed made readable.spelled restoring
    filled member found
  have label := groupLabel_restored committed made readable.spelled restoring filled member found
    inside isTwin
  have kept := all (.ofTable []) terse terse [.connect "source" "end"]
    (.renameCondition "source" "kind") outcome after restored (fun _ => rfl) rfl done restoring filled
    _ member _ found twin inside isTwin
  rw [label, same] at kept
  exact absurd kept (by decide)

end Usual

end Workflow.Session
