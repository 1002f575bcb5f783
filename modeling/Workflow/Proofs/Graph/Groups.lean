import Workflow.Graph.Projection
import Workflow.Proofs.Graph.Coherence

/-! Branches gathered by their sources: each of them once, in order, under its own source. -/

namespace Workflow

namespace Graph

def gather (groups : Table (List Edge)) (edge : Edge) : Table (List Edge) :=
  groups.put edge.source ((groups.get? edge.source).getD [] ++ [edge])

theorem groups_eq (graph : Graph) :
    graph.groups = (graph.edges.filter Edge.isBranch).foldl gather [] := rfl

/-- A table of groups that holds just the given edges. -/
structure Gathered (edges : List Edge) (groups : Table (List Edge)) : Prop where
  distinct : groups.keys.Nodup
  members : ∀ source members, (source, members) ∈ groups →
    members ≠ [] ∧ members = edges.filter (·.source == source)
  known : ∀ edge ∈ edges, edge.source ∈ groups.keys
  whole : (groups.flatMap Prod.snd).Perm edges

theorem Gathered.get? {edges : List Edge} {groups : Table (List Edge)}
    (gathered : Gathered edges groups) (source : Text) :
    (groups.get? source).getD [] = edges.filter (·.source == source) := by
  cases found : groups.get? source with
  | some members => exact (gathered.members source members (Table.mem_of_get? found)).2
  | none =>
      symm
      apply List.filter_eq_nil_iff.mpr
      intro edge member same
      rw [← beq_iff_eq.mp same] at found
      exact Table.get?_eq_none_iff.mp found (gathered.known edge member)

theorem Gathered.gather {edges : List Edge} {groups : Table (List Edge)}
    (gathered : Gathered edges groups) (edge : Edge) :
    Gathered (edges ++ [edge]) (gather groups edge) := by
  constructor
  · exact Table.nodup_keys_put gathered.distinct _
  · intro source members member
    rw [List.filter_append]
    rcases Table.mem_put gathered.distinct member with ⟨rfl, rfl⟩ | ⟨different, kept⟩
    · rw [gathered.get?]
      exact ⟨by simp, by simp⟩
    · obtain ⟨filled, same⟩ := gathered.members source members kept
      refine ⟨filled, ?_⟩
      rw [← same]
      simp [Ne.symm different]
  · intro other member
    rcases List.mem_append.mp member with old | new
    · have known := gathered.known other old
      by_cases present : edge.source ∈ groups.keys
      · rw [Graph.gather, Table.keys_put_of_has present]
        exact known
      · rw [Graph.gather, Table.keys_put_of_not_has present]
        exact List.mem_append_left _ known
    · obtain rfl := List.mem_singleton.mp new
      by_cases present : other.source ∈ groups.keys
      · rw [Graph.gather, Table.keys_put_of_has present]
        exact present
      · rw [Graph.gather, Table.keys_put_of_not_has present]
        exact List.mem_append_right _ (List.mem_singleton.mpr rfl)
  · exact (Table.flatMap_put_append _ _ _).trans (gathered.whole.append_right _)

theorem gathered_foldl {edges : List Edge} {groups : Table (List Edge)}
    (gathered : Gathered edges groups) (more : List Edge) :
    Gathered (edges ++ more) (more.foldl gather groups) := by
  induction more generalizing edges groups with
  | nil =>
      rw [List.append_nil]
      exact gathered
  | cons edge rest ih =>
      have further := ih (gathered.gather edge)
      rw [List.append_assoc] at further
      exact further

theorem gathered_groups (graph : Graph) :
    Gathered (graph.edges.filter Edge.isBranch) graph.groups := by
  have start : Gathered [] [] := by
    constructor
    · exact List.nodup_nil
    · exact fun source members member => absurd member List.not_mem_nil
    · exact fun edge member => absurd member List.not_mem_nil
    · exact List.Perm.refl _
  exact gathered_foldl start (graph.edges.filter Edge.isBranch)

theorem filter_flatMap_own {groups : Table (List Edge)} (distinct : groups.keys.Nodup)
    (own : ∀ source members, (source, members) ∈ groups → ∀ edge ∈ members, edge.source = source)
    (source : Text) :
    (groups.flatMap Prod.snd).filter (·.source == source) = (groups.get? source).getD [] := by
  induction groups with
  | nil => rfl
  | cons group rest ih =>
      obtain ⟨first, members⟩ := group
      obtain ⟨unique, others⟩ := List.nodup_cons.mp distinct
      have further := ih others fun name inside member =>
        own name inside (List.mem_cons_of_mem _ member)
      have here := own first members List.mem_cons_self
      rw [List.flatMap_cons, List.filter_append, further]
      by_cases same : first = source
      · subst same
        have whole : members.filter (·.source == first) = members :=
          List.filter_eq_self.mpr fun edge member => beq_iff_eq.mpr (here edge member)
        rw [whole, Table.get?_eq_none_iff.mpr unique]
        simp [Table.get?]
      · have none : members.filter (·.source == source) = [] := by
          apply List.filter_eq_nil_iff.mpr
          intro edge member
          rw [here edge member]
          simpa using same
        rw [none, Table.get?, if_neg same, List.nil_append]

theorem filter_groups (graph : Graph) (source : Text) :
    (graph.groups.flatMap Prod.snd).filter (·.source == source) =
      (graph.edges.filter Edge.isBranch).filter (·.source == source) := by
  have gathered := gathered_groups graph
  rw [filter_flatMap_own gathered.distinct, gathered.get?]
  intro name members group edge member
  rw [(gathered.members name members group).2] at member
  exact beq_iff_eq.mp (List.mem_filter.mp member).2

theorem foldl_gather_same {groups : Table (List Edge)} {source : Text} {before after : List Edge}
    (absent : source ∉ groups.keys) (own : ∀ edge ∈ after, edge.source = source) :
    after.foldl gather (groups ++ [(source, before)]) = groups ++ [(source, before ++ after)] := by
  induction after generalizing before with
  | nil => rw [List.append_nil]; rfl
  | cons edge rest ih =>
      have here := own edge List.mem_cons_self
      have put : gather (groups ++ [(source, before)]) edge = groups ++ [(source, before ++ [edge])] := by
        rw [gather, here, Table.get?_append_self absent, Table.put_append_self absent]
        rfl
      rw [List.foldl_cons, put, ih fun other member => own other (List.mem_cons_of_mem _ member),
        List.append_assoc]
      rfl

theorem foldl_gather_blocks {groups blocks : Table (List Edge)}
    (distinct : (groups ++ blocks : Table (List Edge)).keys.Nodup)
    (own : ∀ source members, (source, members) ∈ blocks →
      members ≠ [] ∧ ∀ edge ∈ members, edge.source = source) :
    (blocks.flatMap Prod.snd).foldl gather groups = groups ++ blocks := by
  induction blocks generalizing groups with
  | nil => rw [List.append_nil]; rfl
  | cons block rest ih =>
      obtain ⟨source, members⟩ := block
      obtain ⟨filled, here⟩ := own source members List.mem_cons_self
      have absent : source ∉ groups.keys := by
        intro member
        rw [Table.keys, List.map_append, List.nodup_append] at distinct
        exact distinct.2.2 source member source List.mem_cons_self rfl
      obtain ⟨edge, others, rfl⟩ := List.exists_cons_of_ne_nil filled
      have first : gather groups edge = groups ++ [(source, [edge])] := by
        rw [gather, here edge List.mem_cons_self, Table.get?_eq_none_iff.mpr absent,
          Table.put_of_not_mem absent]
        rfl
      have block := @foldl_gather_same groups source [edge] others absent fun other member =>
        here other (List.mem_cons_of_mem _ member)
      rw [List.flatMap_cons, List.foldl_append, List.foldl_cons, first, block, ih,
        List.append_assoc]
      · rfl
      · rw [List.append_assoc]
        exact distinct
      · exact fun other members member => own other members (List.mem_cons_of_mem _ member)

end Graph

end Workflow
