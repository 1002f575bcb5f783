import Workflow.Proofs.Graph.EditView
import Workflow.Proofs.Graph.NormalForm

/-! The branches of a source stand under the label that is kept for it. Edits keep this up, for a new
edge gets the label that its siblings carry, unless a loaded specification gave them an empty one. -/

namespace Workflow

namespace Graph

/-- Every branch of a source carries the label that is kept for the source. -/
def Agreed (graph : Graph) (source : Text) : Prop :=
  ∀ edge ∈ graph.outgoing source, ∀ condition, edge.condition = some condition →
    graph.conditionLabels.get? source = some condition

/-- An agreed source whose label, if it has one, is not empty. -/
structure Grouped (graph : Graph) (source : Text) : Prop where
  agreed : graph.Agreed source
  filled : graph.conditionLabels.get? source ≠ some ""

variable {graph after : Graph} {source : Text} {operation : Operation}

theorem groupLabel_of_agreed (agreed : graph.Agreed source) :
    graph.groupLabel source = graph.conditionLabels.get? source := by
  rw [groupLabel]
  cases found : (graph.outgoing source).findSome? Edge.condition with
  | none => rw [Option.none_or]
  | some condition =>
      obtain ⟨edge, member, here⟩ := List.exists_of_findSome?_eq_some found
      rw [Option.some_or, agreed edge member condition here]

theorem genericLabel_ne_empty (number : Int) : genericLabel number ≠ "" := by
  intro same
  have chars := congrArg Text.chars same
  rw [chars_genericLabel] at chars
  exact absurd (List.append_eq_nil_iff.mp chars).1 (by decide)

theorem resolveLabel_ne_empty (source : Text) (graph : Graph) :
    (graph.resolveLabel source).2 ≠ "" := by
  rcases resolveLabel_cases source graph with ⟨label, _, filled, same⟩ | ⟨_, _, same⟩
  · rw [same]
    exact filled
  · rw [same]
    exact genericLabel_ne_empty _

theorem resolveLabel_of_branch (grouped : graph.Grouped source) {edge : Edge} {condition : Text}
    (member : edge ∈ graph.outgoing source) (branch : edge.condition = some condition) :
    graph.resolveLabel source = (graph, condition) := by
  have kept := grouped.agreed edge member condition branch
  have current := (groupLabel_of_agreed grouped.agreed).trans kept
  rcases resolveLabel_cases source graph with ⟨label, found, _, same⟩ | ⟨_, empty, _⟩
  · rw [same, Option.some.inj (found.symm.trans current)]
  · have isBranch : edge.isBranch = true := by rw [Edge.isBranch, branch]; rfl
    have label := current.symm.trans (empty edge member isBranch)
    exact absurd (kept.trans label) grouped.filled

theorem grouped_empty (source : Text) : Graph.empty.Grouped source := by
  constructor
  · exact fun edge member => absurd member List.not_mem_nil
  · simp [empty, Table.get?]

theorem Grouped.thinned (grouped : graph.Grouped source) (thinned : Thinned operation graph after) :
    after.Grouped source := by
  rcases thinned.label source with same | ⟨_, alone, gone⟩
  · constructor
    · intro edge member condition branch
      obtain ⟨inside, own⟩ := mem_outgoing.mp member
      rw [same]
      rcases thinned.edges edge inside with old | direct
      · exact grouped.agreed edge (mem_outgoing.mpr ⟨old, own⟩) condition branch
      · exact absurd (direct.symm.trans branch) (by simp)
    · rw [same]
      exact grouped.filled
  · constructor
    · intro edge member
      rw [alone] at member
      exact absurd member List.not_mem_nil
    · rw [gone]
      simp

theorem Grouped.relabelled (grouped : graph.Grouped source) {changed label : Text}
    (filled : label ≠ "") (relabelled : Relabelled graph after changed label) :
    after.Grouped source := by
  by_cases own : source = changed
  · subst own
    have kept : after.conditionLabels.get? source = some label := by
      rw [relabelled.labels]
      exact Table.get?_put_self source label graph.conditionLabels
    constructor
    · intro edge member condition branch
      obtain ⟨inside, same⟩ := mem_outgoing.mp member
      rcases relabelled.edges edge inside with direct | ⟨_, new⟩ | ⟨old, resolved⟩
      · exact absurd (direct.symm.trans branch) (by simp)
      · rw [kept, ← new, branch]
      -- A branch that stays carries the label that was looked for; an empty one would not be taken.
      · have carried := resolveLabel_of_branch grouped (mem_outgoing.mpr ⟨old, same⟩) branch
        rw [kept, resolved same, carried]
    · rw [kept]
      simpa using filled
  · have kept : after.conditionLabels.get? source = graph.conditionLabels.get? source := by
      rw [relabelled.labels]
      exact Table.get?_put_of_ne own label graph.conditionLabels
    constructor
    · intro edge member condition branch
      obtain ⟨inside, same⟩ := mem_outgoing.mp member
      rw [kept]
      rcases relabelled.edges edge inside with direct | ⟨other, _⟩ | ⟨old, _⟩
      · exact absurd (direct.symm.trans branch) (by simp)
      · exact absurd (same.symm.trans other) own
      · exact grouped.agreed edge (mem_outgoing.mpr ⟨old, same⟩) condition branch
    · rw [kept]
      exact grouped.filled

theorem grouped_perform (distinct : graph.edgeIds.Nodup) (allowed : operation.isEdit = true)
    (grouped : graph.Grouped source) : (graph.perform operation).1.Grouped source := by
  rcases perform_view distinct allowed with
    thinned | ⟨changed, text, _, filled, relabelled⟩ | ⟨changed, _, _, relabelled⟩
  · exact grouped.thinned thinned
  · exact grouped.relabelled filled relabelled
  · exact grouped.relabelled (resolveLabel_ne_empty changed graph) relabelled

theorem nodup_run {operations : List Operation}
    (allowed : ∀ operation ∈ operations, operation.isEdit = true) (distinct : graph.edgeIds.Nodup) :
    (graph.run operations).edgeIds.Nodup := by
  induction operations generalizing graph with
  | nil => exact distinct
  | cons operation rest ih =>
      obtain ⟨first, others⟩ := List.forall_mem_cons.mp allowed
      exact ih others (nodup_perform distinct first)

theorem grouped_run {operations : List Operation}
    (allowed : ∀ operation ∈ operations, operation.isEdit = true) (distinct : graph.edgeIds.Nodup)
    (grouped : graph.Grouped source) : (graph.run operations).Grouped source := by
  induction operations generalizing graph with
  | nil => exact grouped
  | cons operation rest ih =>
      obtain ⟨first, others⟩ := List.forall_mem_cons.mp allowed
      exact ih others (nodup_perform distinct first) (grouped_perform distinct first grouped)

end Graph

namespace Spec.Document

variable {document : Document}

theorem get?_conditionsFrom {labels found : Table Text} {index : Nat} {entries : List Entry}
    (read : document.conditionsFrom labels index entries = .ok found) :
    (∀ id condition, labels.get? id = some condition → found.get? id = some condition) ∧
      ∀ source condition paths, .branch source condition paths ∈ entries →
        found.get? (document.resolve source) = some condition := by
  induction entries generalizing labels index with
  | nil =>
      obtain rfl := Except.ok.inj read
      exact ⟨fun _ _ known => known, fun _ _ _ member => absurd member List.not_mem_nil⟩
  | cons entry rest ih =>
      cases entry with
      | direct source target =>
          obtain ⟨before, further⟩ := ih read
          refine ⟨before, fun first condition paths member => ?_⟩
          rcases List.mem_cons.mp member with impossible | deeper
          · exact absurd impossible (by simp)
          · exact further first condition paths deeper
      | branch source own paths =>
          have split {found : Table Text}
              (here : found.get? (document.resolve source) = some own)
              (further : ∀ first second third, .branch first second third ∈ rest →
                found.get? (document.resolve first) = some second) :
              ∀ first second third, .branch first second third ∈ .branch source own paths :: rest →
                found.get? (document.resolve first) = some second := by
            intro first second third member
            rcases List.mem_cons.mp member with same | deeper
            · obtain ⟨rfl, rfl, rfl⟩ := Entry.branch.inj same
              exact here
            · exact further first second third deeper
          simp only [conditionsFrom] at read
          cases known : labels.get? (document.resolve source) with
          | none =>
              rw [known] at read
              obtain ⟨before, further⟩ := ih read
              refine ⟨?_, split (before _ own (Table.get?_put_self _ own labels)) further⟩
              intro id condition held
              have different : id ≠ document.resolve source := by
                intro same
                rw [same, known] at held
                exact absurd held (by simp)
              exact before id condition (by rw [Table.get?_put_of_ne different, held])
          | some previous =>
              rw [known] at read
              simp only at read
              split at read
              · rename_i same
                subst same
                obtain ⟨before, further⟩ := ih read
                exact ⟨before, split (before _ previous known) further⟩
              · exact absurd read (by simp)

theorem agreed_graphWith {labels : Table Text} (read : document.conditions = .ok labels)
    (groups : Int) (source : Text) : (document.graphWith labels groups).Agreed source := by
  intro edge member condition branch
  obtain ⟨inside, rfl⟩ := Graph.mem_outgoing.mp member
  obtain ⟨name, paths, entry, same⟩ := branch_of_edgesFrom inside branch
  rw [same]
  exact (get?_conditionsFrom read).2 name condition paths entry

end Spec.Document

namespace Graph

theorem agreed_decode [Host] {text : Text} {decoded : Decoded}
    (found : Graph.decode text = .ok decoded) (source : Text) : decoded.graph.Agreed source := by
  rw [decode] at found
  split at found
  · exact absurd found (by simp)
  · obtain ⟨labels, groups, read, _, same⟩ := Spec.Document.parts_of_toGraph found
    rw [same]
    exact Spec.Document.agreed_graphWith read groups source

/-- In a loaded graph, and after any edits of it, the branches of a source carry the label that is
kept for it, unless the source was loaded with an empty condition. -/
theorem loaded_groups_agree [Host] {text : Text} {decoded : Decoded}
    (found : Graph.decode text = .ok decoded) {source : Text}
    (named : decoded.graph.conditionLabels.get? source ≠ some "") {operations : List Operation}
    (allowed : ∀ operation ∈ operations, operation.isEdit = true) :
    (decoded.graph.run operations).Agreed source :=
  (grouped_run allowed (coherent_decode found).edges ⟨agreed_decode found source, named⟩).agreed

section Usual

attribute [local instance] Host.usual

theorem loaded_groups_agree_mixed :
    let text := "edges:\n- from: __start__\n  condition: route\n  paths: [__end__]\n" ++
      "- from: __start__\n  to: __start__\n" ++
      "- from: __start__\n  condition: route\n  paths: [__end__]"
    let operations : List Operation :=
      [.toggleBranch "edge-1", .disconnect "edge-0-0", .renameCondition "source" " kind\t",
        .toggleBranch "edge-2-0", .connect "source" "nowhere", .connect "source" "end"]
    ∃ decoded, Graph.decode text = .ok decoded ∧
      decoded.graph.conditionLabels.get? "source" ≠ some "" ∧
      (∀ operation ∈ operations, operation.isEdit = true) ∧
      (decoded.graph.run operations).Agreed "source" ∧
      ((decoded.graph.run operations).outgoing "source").map Edge.condition =
        ([some "kind", some "kind", some "kind"] : List (Option Text)) := by
  intro text operations
  have found : Graph.decode text = .ok ⟨{ empty with
      edges := [.branch (pathId 0 0) "source" "end" "route", .direct "edge-1" "source" "source",
        .branch (pathId 2 0) "source" "end" "route"]
      conditionLabels := [("source", "route")]
      edgeCount := 3 }, .standard, [], []⟩ := by decide +kernel
  have allowed : ∀ operation ∈ operations, operation.isEdit = true := by decide
  refine ⟨_, found, by decide, allowed, ?_, by decide +kernel⟩
  exact loaded_groups_agree found (by decide) allowed

end Usual

/-- A direct edge beside a branch under an empty condition. -/
def unnamedGroup : Graph :=
  { empty with
    edges := [.direct "edge-0" "source" "end", .branch (pathId 1 0) "source" "end" ""]
    conditionLabels := [("source", "")]
    edgeCount := 2 }

section Usual

attribute [local instance] Host.usual

/-- An empty condition counts as none: when a sibling of its branches is toggled, this one gets a new
label and they keep theirs. -/
theorem unnamed_group_splits :
    ¬∀ (text : Text) (decoded : Decoded) (operations : List Operation) (source : Text),
      Graph.decode text = .ok decoded → (∀ operation ∈ operations, operation.isEdit = true) →
        (decoded.graph.run operations).Agreed source := by
  intro all
  have found : Graph.decode ("edges:\n- from: __start__\n  to: __end__\n" ++
      "- from: __start__\n  condition: ''\n  paths: [__end__]") = .ok ⟨unnamedGroup, .standard, [], []⟩ := by
    decide +kernel
  have agreed := all _ _ [.toggleBranch "edge-0"] "source" found (by decide)
  have outgoing : (unnamedGroup.run [.toggleBranch "edge-0"]).outgoing "source" =
      [.branch "edge-0" "source" "end" "conditional_edge_1",
        .branch (pathId 1 0) "source" "end" ""] := by decide +kernel
  have kept : (unnamedGroup.run [.toggleBranch "edge-0"]).conditionLabels.get? "source" =
      some "conditional_edge_1" := by decide +kernel
  have old := agreed (.branch (pathId 1 0) "source" "end" "") (by rw [outgoing]; simp) "" rfl
  exact absurd (kept.symm.trans old) (by decide)

end Usual

end Graph

end Workflow
