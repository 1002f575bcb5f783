import Workflow.Proofs.Graph.GenericLabel
import Workflow.Proofs.Graph.GroupLabel

/-! Labels from the counter are new. The counter is never behind the number of a generic label in
use, so long as nobody types labels that look like generic ones. -/

namespace Workflow

/-- Labels that do not look like those from the counter. -/
def IsOwn (label : Text) : Prop := "conditional_edge".toList.isPrefixOf label.chars = false

instance (label : Text) : Decidable (IsOwn label) :=
  inferInstanceAs (Decidable ("conditional_edge".toList.isPrefixOf label.chars = false))

theorem not_isOwn_genericLabel (number : Int) : ¬IsOwn (genericLabel number) := by
  rw [IsOwn, List.isPrefixOf_iff_prefix.mpr (mark_of_genericLabel number)]
  exact Bool.false_ne_true.symm

namespace Graph

/-- The conditions of edges and the labels that are kept for sources. -/
def labelsInUse (graph : Graph) : List Text :=
  graph.edges.filterMap Edge.condition ++ graph.conditionLabels.map Prod.snd

/-- The label that a user typed, without the blanks around it. -/
def Operation.typed : Operation → Option Text
  | .renameCondition _ text => some (Text.trimBlanks text)
  | _ => none

/-- The label that an edit takes from the counter, also where the edit is refused in the end. -/
def Operation.minted (operation : Operation) (graph : Graph) : Option Text :=
  if (operation.stuck? graph).isSome then none
  else
    (operation.asks graph).bind fun source =>
      if graph.resolveLabel source = (graph, (graph.groupLabel source).getD "") then none
      else some (graph.resolveLabel source).2

def minted : List Operation → Graph → List Text
  | [], _ => []
  | operation :: rest, graph =>
    (operation.minted graph).toList ++ minted rest (graph.perform operation).1

/-- A source has a label: a branch of it carries this label, or it is kept for the source. -/
def Bears (graph : Graph) (source label : Text) : Prop :=
  (∃ edge ∈ graph.edges, edge.source = source ∧ edge.condition = some label) ∨
    (source, label) ∈ graph.conditionLabels

/-- A graph whose counter is not behind the number of any generic label, but for those that were
given to their sources from elsewhere. -/
structure Charted (given : Text → Option Text) (graph : Graph) : Prop where
  edges : graph.edgeIds.Nodup
  bound : ∀ source number, graph.Bears source (genericLabel number) →
    number ≤ graph.groupCount ∨ given source = some (genericLabel number)

variable {graph after : Graph} {operation : Operation} {source label : Text}
  {given : Text → Option Text}

theorem mem_labelsInUse : label ∈ graph.labelsInUse ↔ ∃ source, graph.Bears source label := by
  simp only [labelsInUse, Bears, List.mem_append, List.mem_filterMap, List.mem_map]
  constructor
  · rintro (⟨edge, inside, carried⟩ | ⟨⟨source, _⟩, kept, rfl⟩)
    · exact ⟨edge.source, .inl ⟨edge, inside, rfl, carried⟩⟩
    · exact ⟨source, .inr kept⟩
  · rintro ⟨source, ⟨edge, inside, _, carried⟩ | kept⟩
    · exact .inl ⟨edge, inside, carried⟩
    · exact .inr ⟨(source, label), kept, rfl⟩

theorem bears_of_groupLabel (found : graph.groupLabel source = some label) :
    graph.Bears source label := by
  rw [groupLabel, Option.or_eq_some_iff] at found
  rcases found with first | ⟨_, kept⟩
  · obtain ⟨edge, member, here⟩ := List.exists_of_findSome?_eq_some first
    obtain ⟨inside, leaves⟩ := mem_outgoing.mp member
    exact .inl ⟨edge, inside, leaves, here⟩
  · exact .inr (Table.mem_of_get? kept)

theorem Thinned.bears (thinned : Thinned operation graph after) (borne : after.Bears source label) :
    graph.Bears source label := by
  rcases borne with ⟨edge, inside, leaves, carried⟩ | kept
  · rcases thinned.edges edge inside with old | direct
    · exact .inl ⟨edge, old, leaves, carried⟩
    · exact absurd (direct.symm.trans carried) (by simp)
  · exact .inr (thinned.labels _ kept)

theorem Relabelled.bears {changed given : Text} (relabelled : Relabelled graph after changed given)
    (borne : after.Bears source label) :
    source = changed ∧ label = given ∨ graph.Bears source label := by
  rcases borne with ⟨edge, inside, leaves, carried⟩ | kept
  · rcases relabelled.edges edge inside with direct | ⟨own, new⟩ | ⟨old, _⟩
    · exact absurd (direct.symm.trans carried) (by simp)
    · exact .inl ⟨leaves.symm.trans own, Option.some.inj (carried.symm.trans new)⟩
    · exact .inr (.inl ⟨edge, old, leaves, carried⟩)
  · rw [relabelled.labels] at kept
    rcases Table.eq_or_mem_of_mem_put kept with new | old
    · exact .inl (Prod.mk.inj new)
    · exact .inr (.inr old)

theorem minted_of_stuck (stuck : (operation.stuck? graph).isSome = true) :
    operation.minted graph = none := by
  rw [Operation.minted, if_pos stuck]

/-- An edit that asks for a label and comes to its end uses one that its source has, or it takes the
next one. -/
theorem minted_of_asks (free : operation.stuck? graph = none)
    (asked : operation.asks graph = some source) :
    (operation.minted graph = none ∧ (graph.resolveLabel source).1 = graph ∧
        graph.Bears source (graph.resolveLabel source).2) ∨
      (operation.minted graph = some (genericLabel (graph.groupCount + 1)) ∧
        (graph.resolveLabel source).1.groupCount = graph.groupCount + 1 ∧
        (graph.resolveLabel source).2 = genericLabel (graph.groupCount + 1)) := by
  rw [Operation.minted, free, Option.isSome_none, if_neg Bool.false_ne_true, asked, Option.bind_some]
  rcases resolveLabel_cases source graph with ⟨label, found, _, same⟩ | ⟨_, _, same⟩
  · rw [same, found]
    exact .inl ⟨if_pos rfl, rfl, bears_of_groupLabel found⟩
  · rw [same]
    refine .inr ⟨if_neg ?_, rfl, rfl⟩
    intro equal
    have counts := congrArg (fun result => result.1.groupCount) equal
    simp only at counts
    omega

theorem eq_of_minted (taken : operation.minted graph = some label) :
    label = genericLabel (graph.groupCount + 1) := by
  cases stuck : operation.stuck? graph with
  | some left => exact absurd ((minted_of_stuck (by rw [stuck]; rfl)).symm.trans taken) (by simp)
  | none =>
      cases asked : operation.asks graph with
      | none =>
          rw [Operation.minted, stuck, asked] at taken
          exact absurd taken (by simp)
      | some source =>
          rcases minted_of_asks stuck asked with ⟨none, _⟩ | ⟨some, _⟩
          · exact absurd (none.symm.trans taken) (by simp)
          · exact Option.some.inj (taken.symm.trans some)

/-- The counter counts the labels that are taken from it. -/
theorem minted_cases (distinct : graph.edgeIds.Nodup) (allowed : operation.isEdit = true) :
    (operation.minted graph = none ∧
        graph.groupCount ≤ (graph.perform operation).1.groupCount) ∨
      (operation.minted graph = some (genericLabel (graph.groupCount + 1)) ∧
        (graph.perform operation).1.groupCount = graph.groupCount + 1) := by
  rcases perform_cases operation graph with ⟨free, made⟩ | ⟨stuck, moved, _⟩
  · have count := groupCount_execute distinct allowed
    rw [made, count]
    cases asked : operation.asks graph with
    | none =>
        refine .inl ⟨?_, Int.le_refl _⟩
        rw [Operation.minted, asked, Option.bind_none, ite_self]
    | some source =>
        rcases minted_of_asks free asked with ⟨none, same, _⟩ | ⟨some, next, _⟩
        · exact .inl ⟨none, Int.le_of_eq (congrArg groupCount same.symm)⟩
        · exact .inr ⟨some, next⟩
  · exact .inl ⟨minted_of_stuck stuck, moved.group⟩

theorem bears_perform (distinct : graph.edgeIds.Nodup) (allowed : operation.isEdit = true)
    (borne : (graph.perform operation).1.Bears source label) :
    graph.Bears source label ∨ operation.typed = some label ∨
      operation.minted graph = some label := by
  rcases perform_view distinct allowed with
    thinned | ⟨changed, text, rfl, _, relabelled⟩ | ⟨changed, free, asked, relabelled⟩
  · exact .inl (thinned.bears borne)
  · rcases relabelled.bears borne with ⟨_, same⟩ | old
    · exact .inr (.inl (congrArg some same.symm))
    · exact .inl old
  · rcases relabelled.bears borne with ⟨rfl, rfl⟩ | old
    · rcases minted_of_asks free asked with ⟨_, _, known⟩ | ⟨some, _, next⟩
      · exact .inl known
      · rw [next]
        exact .inr (.inr some)
    · exact .inl old

theorem groupCount_le_perform (distinct : graph.edgeIds.Nodup) (allowed : operation.isEdit = true) :
    graph.groupCount ≤ (graph.perform operation).1.groupCount := by
  rcases minted_cases distinct allowed with ⟨_, grown⟩ | ⟨_, next⟩ <;> omega

theorem charted_perform (charted : graph.Charted given) (allowed : operation.isEdit = true)
    (own : ∀ label ∈ operation.typed, IsOwn label) :
    (graph.perform operation).1.Charted given := by
  refine ⟨nodup_perform charted.edges allowed, ?_⟩
  intro source number borne
  rcases bears_perform charted.edges allowed borne with old | typed | taken
  · have grown := groupCount_le_perform charted.edges allowed
    exact (charted.bound source number old).imp_left fun bound => Int.le_trans bound grown
  · exact absurd (own _ typed) (not_isOwn_genericLabel number)
  · rcases minted_cases charted.edges allowed with ⟨none, _⟩ | ⟨some, next⟩
    · exact absurd (none.symm.trans taken) (by simp)
    · have same := genericLabel_injective (Option.some.inj (taken.symm.trans some))
      exact .inl (Int.le_of_eq (same.trans next.symm))

theorem Charted.given_of_minted (charted : graph.Charted given)
    (taken : operation.minted graph = some label) (borne : graph.Bears source label) :
    given source = some label := by
  rw [eq_of_minted taken] at borne ⊢
  rcases charted.bound source _ borne with bound | given
  · omega
  · exact given

theorem charted_run {operations : List Operation} (charted : graph.Charted given)
    (allowed : ∀ operation ∈ operations, operation.isEdit = true)
    (own : ∀ operation ∈ operations, ∀ label ∈ operation.typed, IsOwn label) :
    (graph.run operations).Charted given := by
  induction operations generalizing graph with
  | nil => exact charted
  | cons operation rest ih =>
      obtain ⟨first, others⟩ := List.forall_mem_cons.mp allowed
      obtain ⟨here, further⟩ := List.forall_mem_cons.mp own
      exact ih (charted_perform charted first here) others further

theorem groupCount_le_run {operations : List Operation} (distinct : graph.edgeIds.Nodup)
    (allowed : ∀ operation ∈ operations, operation.isEdit = true) :
    graph.groupCount ≤ (graph.run operations).groupCount := by
  induction operations generalizing graph with
  | nil => exact Int.le_refl _
  | cons operation rest ih =>
      obtain ⟨first, others⟩ := List.forall_mem_cons.mp allowed
      calc graph.groupCount
        _ ≤ (graph.perform operation).1.groupCount := groupCount_le_perform distinct first
        _ ≤ ((graph.perform operation).1.run rest).groupCount :=
          ih (nodup_perform distinct first) others

theorem number_of_minted {operations : List Operation} (distinct : graph.edgeIds.Nodup)
    (allowed : ∀ operation ∈ operations, operation.isEdit = true)
    (member : label ∈ minted operations graph) :
    ∃ number ≤ (graph.run operations).groupCount, label = genericLabel number := by
  induction operations generalizing graph with
  | nil => exact absurd member List.not_mem_nil
  | cons operation rest ih =>
      obtain ⟨first, others⟩ := List.forall_mem_cons.mp allowed
      have kept := nodup_perform distinct first
      rcases List.mem_append.mp member with here | later
      · rcases minted_cases distinct first with ⟨none, _⟩ | ⟨some, next⟩
        · rw [none] at here
          exact absurd here List.not_mem_nil
        · rw [some] at here
          exact ⟨graph.groupCount + 1, next ▸ groupCount_le_run kept others,
            List.mem_singleton.mp here⟩
      · exact ih kept others later

inductive Opens [Host] : Graph → Prop where
  | empty : Opens .empty
  | decoded {text : Text} {decoded : Decoded} (found : Graph.decode text = .ok decoded) :
      Opens decoded.graph

theorem charted_decode [Host] {text : Text} {decoded : Decoded}
    (found : Graph.decode text = .ok decoded) : decoded.graph.Charted fun _ => none := by
  have agreed := agreed_decode found
  refine ⟨(coherent_decode found).edges, ?_⟩
  rw [decode] at found
  split at found
  · exact absurd found (by simp)
  · obtain ⟨labels, groups, _, counted, same⟩ := Spec.Document.parts_of_toGraph found
    intro source number borne
    have kept : genericLabel number ∈ decoded.graph.conditionLabels.map Prod.snd := by
      rcases borne with ⟨edge, inside, _, carried⟩ | entry
      · have entry := agreed edge.source edge (mem_outgoing.mpr ⟨inside, rfl⟩) _ carried
        exact List.mem_map_of_mem (Table.mem_of_get? entry)
      · exact List.mem_map_of_mem entry
    rw [same] at kept ⊢
    exact .inl ((Spec.Document.le_greatestGeneric counted).2 number kept)

theorem Opens.charted [Host] (opens : Opens graph) : graph.Charted fun _ => none := by
  cases opens with
  | empty =>
      refine ⟨List.nodup_nil, fun source number borne => ?_⟩
      rcases borne with ⟨edge, member, _⟩ | member <;> exact absurd member List.not_mem_nil
  | decoded found => exact charted_decode found

/-- A label that comes from the counter is in use nowhere and did not come from it before. -/
theorem minted_label_fresh [Host] {start : Graph} (opens : Opens start) {operations : List Operation}
    (allowed : ∀ operation ∈ operations, operation.isEdit = true)
    (own : ∀ operation ∈ operations, ∀ label ∈ operation.typed, IsOwn label)
    {next : Operation} (taken : next.minted (start.run operations) = some label) :
    label ∉ (start.run operations).labelsInUse ∧ label ∉ minted operations start := by
  constructor
  · intro member
    obtain ⟨source, borne⟩ := mem_labelsInUse.mp member
    exact absurd ((charted_run opens.charted allowed own).given_of_minted taken borne) (by simp)
  · intro member
    obtain ⟨old, bound, same⟩ := number_of_minted opens.charted.edges allowed member
    have equal := genericLabel_injective (same.symm.trans (eq_of_minted taken))
    omega

/-- A branch under a generic label whose number has a zero in front. -/
def paddedLabel : Graph :=
  { empty with
    edges := [.branch (pathId 0 0) "source" "end" "conditional_edge_07"]
    conditionLabels := [("source", "conditional_edge_07")]
    groupCount := 7
    edgeCount := 1 }

section Usual

attribute [local instance] Host.usual

theorem minted_label_fresh_refused :
    let text := "edges:\n- from: __start__\n  condition: conditional_edge_07\n  paths: [__end__]"
    let operations : List Operation :=
      [.toggleBranch "edge-0-0", .renameCondition "end" " kind\t", .addStep none none,
        .connect "step-1" "end", .connect "step-1" "nowhere"]
    let next : Operation := .connect "step-1" "source"
    Graph.decode text = .ok ⟨paddedLabel, .standard, [], []⟩ ∧
      (∀ operation ∈ operations, operation.isEdit = true) ∧
      (∀ operation ∈ operations, ∀ label ∈ operation.typed, IsOwn label) ∧
      next.minted (paddedLabel.run operations) = some "conditional_edge_9" ∧
      (paddedLabel.run operations).labelsInUse = ["conditional_edge_07", "kind"] ∧
      minted operations paddedLabel = ["conditional_edge_8"] ∧
      ("conditional_edge_9" : Text) ∉ (paddedLabel.run operations).labelsInUse ∧
      ("conditional_edge_9" : Text) ∉ minted operations paddedLabel := by
  intro text operations next
  have found : Graph.decode text = .ok ⟨paddedLabel, .standard, [], []⟩ := by decide +kernel
  have allowed : ∀ operation ∈ operations, operation.isEdit = true := by decide
  have own : ∀ operation ∈ operations, ∀ label ∈ operation.typed, IsOwn label := by decide +kernel
  have taken : next.minted (paddedLabel.run operations) = some "conditional_edge_9" := by
    decide +kernel
  have fresh := minted_label_fresh (.decoded found) allowed own taken
  exact ⟨found, allowed, own, taken, by decide +kernel, by decide +kernel, fresh⟩

end Usual

end Graph

end Workflow
