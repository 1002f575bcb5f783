import Workflow.Proofs.Graph.GenericLabel
import Workflow.Proofs.Graph.Naming

/-! A graph that was written and rebuilt has the same edges between the same names. -/

namespace Workflow

namespace Graph

variable {graph : Graph} {config : Spec.Config} {entry terminal : Node} {owner : Text → Text}

/-- The edges in the order in which they are written. -/
def writingOrder (graph : Graph) (entry terminal : Node) : List Edge :=
  graph.directEdges entry.id terminal.id ++ graph.groups.flatMap Prod.snd

theorem writingOrder_perm (graph : Graph) (entry terminal : Node) :
    (graph.writingOrder entry terminal).Perm graph.edges := by
  have branches := (gathered_groups graph).whole
  have direct := directEdges_perm graph entry.id terminal.id
  have whole := List.filter_append_perm (fun edge : Edge => !edge.isBranch) graph.edges
  simp only [Bool.not_not] at whole
  exact (direct.append branches).trans whole

theorem group_of_mem {graph : Graph} {source : Text} {members : List Edge}
    (group : (source, members) ∈ graph.groups) :
    members ≠ [] ∧ ∀ edge ∈ members, edge ∈ graph.edges ∧ edge.source = source ∧
      edge.isBranch = true := by
  obtain ⟨filled, same⟩ := (gathered_groups graph).members source members group
  refine ⟨filled, ?_⟩
  intro edge member
  rw [same] at member
  obtain ⟨branch, own⟩ := List.mem_filter.mp member
  obtain ⟨known, condition⟩ := List.mem_filter.mp branch
  exact ⟨known, beq_iff_eq.mp own, condition⟩

theorem condition_of_group (shaped : graph.Shaped entry terminal) {source : Text}
    {members : List Edge} (group : (source, members) ∈ graph.groups) {edge : Edge}
    (member : edge ∈ members) :
    edge.condition = some ((members.findSome? Edge.condition).getD "") := by
  obtain ⟨_, own⟩ := group_of_mem group
  obtain ⟨label, conditions⟩ := shaped.condition
  have uniform {other : Edge} (inside : other ∈ members) : other.condition = some (label source) := by
    obtain ⟨known, same, branch⟩ := own other inside
    obtain ⟨condition, here⟩ := Option.isSome_iff_exists.mp branch
    rw [here, ← same, conditions other known condition here]
  cases found : members.findSome? Edge.condition with
  | none =>
      have absent := List.findSome?_eq_none_iff.mp found edge member
      exact absurd (absent.symm.trans (uniform member)) (by simp)
  | some condition =>
      obtain ⟨other, inside, here⟩ := List.exists_of_findSome?_eq_some found
      rw [uniform member, Option.getD_some, ← here, uniform inside]

theorem spelled_written (shaped : graph.Shaped entry terminal) :
    (graph.written config entry terminal).edges.flatMap Spec.Entry.spelled =
      (graph.writingOrder entry terminal).map graph.spell := by
  have direct : ((graph.directEdges entry.id terminal.id).map graph.directEntry).flatMap
      Spec.Entry.spelled = (graph.directEdges entry.id terminal.id).map graph.spell := by
    rw [List.flatMap_map, List.map_eq_flatMap]
    apply List.flatMap_congr
    intro edge member
    obtain ⟨_, none⟩ := mem_directEdges.mp member
    have condition : edge.condition = .none := by simpa [Edge.isBranch] using none
    rw [directEntry, spell, condition]
    rfl
  have groups : (graph.groups.map graph.groupEntry).flatMap Spec.Entry.spelled =
      (graph.groups.flatMap Prod.snd).map graph.spell := by
    rw [List.flatMap_map, List.map_flatMap]
    apply List.flatMap_congr
    rintro ⟨source, members⟩ group
    rw [groupEntry, Spec.Entry.spelled, List.map_map]
    apply List.map_congr_left
    intro edge member
    obtain ⟨_, own⟩ := group_of_mem group
    rw [spell, condition_of_group shaped group member, (own edge member).2.1]
    rfl
  rw [written, writingOrder, List.flatMap_append, direct, groups, List.map_append]

theorem names_written (graph : Graph) (config : Spec.Config) (entry terminal : Node) :
    (graph.written config entry terminal).edges.flatMap Spec.Document.names =
      (visited (graph.directEdges entry.id terminal.id) graph.groups).map graph.specName := by
  rw [written, visited, List.flatMap_append, List.map_append, List.flatMap_map, List.flatMap_map,
    List.map_flatMap, List.map_flatMap]
  congr 1
  apply List.flatMap_congr
  rintro ⟨source, members⟩ _
  rw [groupEntry, Spec.Document.names, List.map_cons, List.map_map]
  rfl

theorem filterMap_stepLabel? (writable : graph.Writable entry terminal owner) :
    (visited (graph.directEdges entry.id terminal.id) graph.groups).filterMap graph.stepLabel? =
      ((graph.written config entry terminal).edges.flatMap Spec.Document.names).filter
        Spec.isStepName := by
  rw [names_written, ← List.filterMap_eq_filter, List.filterMap_map]
  apply List.filterMap_congr
  intro id member
  obtain ⟨edge, inside, touched⟩ := mem_visited.mp member
  obtain ⟨known, owns⟩ := writable.touched_owned inside touched
  rw [stepLabel?_eq known owns, Option.filter_some]
  rfl

theorem nodes_written (writable : graph.Writable entry terminal owner) :
    (graph.written config entry terminal).nodes =
      (((graph.written config entry terminal).edges.flatMap Spec.Document.names).filter
        Spec.isStepName).foldl addNew [] := by
  rw [← filterMap_stepLabel? writable]
  rfl

theorem knows_written (writable : graph.Writable entry terminal owner) :
    ∀ name ∈ (graph.written config entry terminal).edges.flatMap Spec.Document.names,
      (graph.written config entry terminal).Knows name := by
  intro name member
  by_cases start : name = Spec.startName
  · exact .inl start
  · by_cases stop : name = Spec.endName
    · exact .inr (.inl stop)
    · refine .inr (.inr ?_)
      rw [nodes_written writable, mem_foldl_addNew]
      refine .inr (List.mem_filter.mpr ⟨member, ?_⟩)
      simp [Spec.isStepName, start, stop]

theorem knows_touched (writable : graph.Writable entry terminal owner) {edge : Edge}
    (member : edge ∈ graph.edges) {id : Text} (touched : edge.source = id ∨ edge.target = id) :
    (graph.written config entry terminal).Knows (graph.specName id) := by
  apply knows_written writable
  rw [names_written]
  exact List.mem_map_of_mem (mem_visited.mpr ⟨edge, member, touched⟩)

theorem specName_injective (writable : graph.Writable entry terminal owner) {first second : Edge}
    (left : first ∈ graph.edges) (right : second ∈ graph.edges) {id other : Text}
    (here : first.source = id ∨ first.target = id) (there : second.source = other ∨ second.target = other)
    (same : graph.specName id = graph.specName other) : id = other := by
  obtain ⟨known, owns⟩ := writable.touched_owned left here
  obtain ⟨otherKnown, otherOwns⟩ := writable.touched_owned right there
  rw [← idOfName_specName writable.toShaped known owns, same,
    idOfName_specName writable.toShaped otherKnown otherOwns]

end Graph

namespace Spec.Document

variable {document : Document}

theorem spell_edgesOf {labels : Table Text} {groups : Int} {index : Nat} {entry : Entry}
    (known : ∀ name ∈ names entry, document.Knows name) :
    (document.edgesOf index entry).map (document.graphWith labels groups).spell = entry.spelled := by
  cases entry with
  | direct source target =>
      have left := @specName_resolve document labels groups source (known source List.mem_cons_self)
      have right := @specName_resolve document labels groups target
        (known target (List.mem_cons_of_mem _ List.mem_cons_self))
      simp only [edgesOf, List.map_cons, List.map_nil, Graph.spell, Edge.direct, left, right,
        Entry.spelled]
  | branch source condition paths =>
      have left := @specName_resolve document labels groups source (known source List.mem_cons_self)
      rw [edgesOf, List.map_map, Entry.spelled]
      calc
        _ = (paths.zipIdx.map Prod.fst).map fun path => (source, path, some condition) := by
          rw [List.map_map]
          apply List.map_congr_left
          rintro ⟨path, place⟩ member
          have inside : path ∈ paths := by
            rw [← List.zipIdx_map_fst 0 paths]
            exact List.mem_map_of_mem member
          have right := @specName_resolve document labels groups path
            (known path (List.mem_cons_of_mem _ inside))
          simp only [Function.comp_apply, Graph.spell, Edge.branch, left, right]
        _ = paths.map fun path => (source, path, some condition) := by rw [List.zipIdx_map_fst]

theorem spell_edgesFrom {labels : Table Text} {groups : Int} {index : Nat} {entries : List Entry}
    (known : ∀ name ∈ entries.flatMap names, document.Knows name) :
    (document.edgesFrom index entries).map (document.graphWith labels groups).spell =
      entries.flatMap Entry.spelled := by
  induction entries generalizing index with
  | nil => rfl
  | cons entry rest ih =>
      rw [List.flatMap_cons] at known
      rw [edgesFrom, List.map_append, List.flatMap_cons,
        spell_edgesOf fun name member => known name (List.mem_append_left _ member),
        ih fun name member => known name (List.mem_append_right _ member)]

/-- Conditions are read just if every source has one, agreeing with those read before. -/
theorem conditionsFrom_eq_ok_iff {labels : Table Text} {index : Nat} {entries : List Entry} :
    (∃ found, document.conditionsFrom labels index entries = .ok found) ↔
      ∃ label : Text → Text, labels.Agrees label ∧
        ∀ source condition paths, .branch source condition paths ∈ entries →
          label (document.resolve source) = condition := by
  induction entries generalizing labels index with
  | nil =>
      refine ⟨fun _ => ⟨_, labels.agrees_getD, ?_⟩, fun _ => ⟨labels, rfl⟩⟩
      exact fun source condition paths member => absurd member List.not_mem_nil
  | cons entry rest ih =>
      cases entry with
      | direct source target =>
          simp only [conditionsFrom, List.mem_cons, reduceCtorEq, false_or]
          exact ih
      | branch source condition paths =>
          have split (label : Text → Text) :
              (∀ first second third, .branch first second third ∈ .branch source condition paths :: rest →
                label (document.resolve first) = second) ↔
              label (document.resolve source) = condition ∧
                ∀ first second third, .branch first second third ∈ rest →
                  label (document.resolve first) = second := by
            constructor
            · intro all
              exact ⟨all _ _ _ List.mem_cons_self, fun first second third member =>
                all first second third (List.mem_cons_of_mem _ member)⟩
            · rintro ⟨here, further⟩ first second third member
              rcases List.mem_cons.mp member with same | deeper
              · obtain ⟨rfl, rfl, rfl⟩ := Entry.branch.inj same
                exact here
              · exact further first second third deeper
          simp only [split, conditionsFrom]
          cases known : labels.get? (document.resolve source) with
          | none => exact ih.trans (Table.exists_agrees_put known)
          | some previous =>
              by_cases same : previous = condition
              · subst same
                simp only [↓reduceIte]
                exact ih.trans (Table.exists_agrees_same known)
              · simp only [same, ↓reduceIte]
                exact iff_of_false (by simp) (Table.not_exists_agrees known same)

theorem mem_conditionsFrom {labels found : Table Text} {index : Nat} {entries : List Entry}
    (read : document.conditionsFrom labels index entries = .ok found) {condition : Text} :
    condition ∈ found.map Prod.snd ↔
      condition ∈ labels.map Prod.snd ∨
        ∃ source paths, .branch source condition paths ∈ entries := by
  induction entries generalizing labels index with
  | nil =>
      obtain rfl := Except.ok.inj read
      simp
  | cons entry rest ih =>
      cases entry with
      | direct source target =>
          rw [ih read]
          simp only [List.mem_cons, reduceCtorEq, false_or]
      | branch source own paths =>
          have split : (∃ first third, .branch first condition third ∈ .branch source own paths :: rest) ↔
              condition = own ∨ ∃ first third, .branch first condition third ∈ rest := by
            constructor
            · rintro ⟨first, third, member⟩
              rcases List.mem_cons.mp member with same | deeper
              · obtain ⟨_, same, _⟩ := Entry.branch.inj same
                exact .inl same
              · exact .inr ⟨first, third, deeper⟩
            · rintro (rfl | ⟨first, third, member⟩)
              · exact ⟨source, paths, List.mem_cons_self⟩
              · exact ⟨first, third, List.mem_cons_of_mem _ member⟩
          rw [split]
          simp only [conditionsFrom] at read
          cases known : labels.get? (document.resolve source) with
          | none =>
              rw [known] at read
              rw [ih read, Table.put_of_not_mem (Table.get?_eq_none_iff.mp known), List.map_append,
                List.mem_append, or_assoc]
              simp
          | some previous =>
              rw [known] at read
              simp only at read
              split at read
              · rename_i same
                subst same
                rw [ih read]
                have inside : previous ∈ labels.map Prod.snd :=
                  List.mem_map.mpr ⟨_, Table.mem_of_get? known, rfl⟩
                constructor
                · rintro (before | after)
                  · exact .inl before
                  · exact .inr (.inr after)
                · rintro (before | rfl | after)
                  · exact .inl before
                  · exact .inl inside
                  · exact .inr after
              · exact absurd read (by simp)

end Spec.Document

namespace Graph

variable {graph : Graph} {config : Spec.Config} {entry terminal : Node} {owner : Text → Text}

theorem resolve_specName (writable : graph.Writable entry terminal owner) {first second : Edge}
    (left : first ∈ graph.edges) (right : second ∈ graph.edges) {id other : Text}
    (here : first.source = id ∨ first.target = id) (there : second.source = other ∨ second.target = other)
    (same : (graph.written config entry terminal).resolve (graph.specName id) =
      (graph.written config entry terminal).resolve (graph.specName other)) : id = other :=
  specName_injective writable left right here there
    (Spec.Document.resolve_injective (knows_touched writable left here)
      (knows_touched writable right there) same)

theorem conditions_written (writable : graph.Writable entry terminal owner) :
    ∃ labels, (graph.written config entry terminal).conditions = .ok labels := by
  obtain ⟨label, conditions⟩ := writable.condition
  refine Spec.Document.conditionsFrom_eq_ok_iff.mpr
    ⟨fun id => label (idOfName entry terminal owner
      (((graph.written config entry terminal).graphWith [] 0).specName id)),
      Table.agrees_nil _, ?_⟩
  intro source condition paths member
  rcases List.mem_append.mp member with direct | grouped
  · obtain ⟨edge, _, impossible⟩ := List.mem_map.mp direct
    exact absurd impossible (by simp [directEntry])
  · obtain ⟨⟨id, members⟩, group, same⟩ := List.mem_map.mp grouped
    obtain ⟨rfl, rfl, _⟩ := Spec.Entry.branch.inj same
    obtain ⟨filled, own⟩ := group_of_mem group
    obtain ⟨edge, rest, rfl⟩ := List.exists_cons_of_ne_nil filled
    obtain ⟨known, rfl, _⟩ := own edge List.mem_cons_self
    have named : (graph.written config entry terminal).Knows (graph.specName edge.source) :=
      knows_touched writable known (.inl rfl)
    dsimp only
    rw [Spec.Document.specName_resolve named, writable.source_owned known]
    exact conditions edge known _
      (condition_of_group writable.toShaped group List.mem_cons_self)

theorem condition_of_written (shaped : graph.Shaped entry terminal) {source condition : Text}
    {paths : List Text}
    (member : .branch source condition paths ∈ (graph.written config entry terminal).edges) :
    ∃ edge ∈ graph.edges, edge.condition = some condition := by
  rcases List.mem_append.mp member with direct | grouped
  · obtain ⟨edge, _, impossible⟩ := List.mem_map.mp direct
    exact absurd impossible (by simp [directEntry])
  · obtain ⟨⟨id, members⟩, group, same⟩ := List.mem_map.mp grouped
    obtain ⟨_, rfl, _⟩ := Spec.Entry.branch.inj same
    obtain ⟨filled, own⟩ := group_of_mem group
    obtain ⟨edge, rest, rfl⟩ := List.exists_cons_of_ne_nil filled
    exact ⟨edge, (own edge List.mem_cons_self).1,
      condition_of_group shaped group List.mem_cons_self⟩

/-- What was written of a graph can be rebuilt, if the numbers of its conditions can be read. -/
theorem toGraph_written (writable : graph.Writable entry terminal owner)
    (countable : ∀ edge ∈ graph.edges, ∀ condition ∈ edge.condition,
      Spec.Document.IsCountable condition) :
    ∃ labels groups, (graph.written config entry terminal).conditions = .ok labels ∧
      (graph.written config entry terminal).toGraph =
        .ok ⟨(graph.written config entry terminal).graphWith labels groups, config, [], []⟩ := by
  obtain ⟨labels, read⟩ : ∃ labels, (graph.written config entry terminal).conditions = .ok labels :=
    conditions_written writable
  have each : ∀ label ∈ labels.map Prod.snd, Spec.Document.IsCountable label := by
    intro label member
    rcases (Spec.Document.mem_conditionsFrom read).mp member with known | ⟨source, paths, entered⟩
    · exact absurd known List.not_mem_nil
    · obtain ⟨edge, inside, condition⟩ := condition_of_written writable.toShaped entered
      exact countable edge inside label condition
  obtain ⟨groups, counted⟩ := Spec.Document.greatestGeneric_eq_ok_iff.mpr each
  refine ⟨labels, groups, read, ?_⟩
  rw [Spec.Document.toGraph_of_parts read counted]
  rw [(Spec.Document.nothing_reported (knows_written writable)).1,
    (Spec.Document.nothing_reported (knows_written writable)).2]
  rfl

/-- Where the branches of a source lead, by name and in order. -/
def branchTargets (graph : Graph) (source : Text) : List Text :=
  ((graph.outgoing source).filter Edge.isBranch).map fun edge => graph.specName edge.target

theorem branchTargets_eq {source name : Text}
    (faithful : ∀ edge ∈ graph.edges, edge.source = source ↔ graph.specName edge.source = name) :
    graph.branchTargets source =
      (((graph.edges.map graph.spell).filter fun spelled => spelled.2.2.isSome).filter
        fun spelled => spelled.1 == name).map fun spelled => spelled.2.1 := by
  rw [branchTargets, outgoing, List.filter_map, List.filter_map, List.map_map, List.filter_filter,
    List.filter_filter]
  congr 1
  apply List.filter_congr
  intro edge member
  have same := faithful edge member
  cases here : edge.source == source with
  | true =>
      have equal := same.mp (beq_iff_eq.mp here)
      simp [spell, equal, Edge.isBranch]
  | false =>
      have different : graph.specName edge.source ≠ name := fun equal =>
        beq_eq_false_iff_ne.mp here (same.mpr equal)
      simp [spell, different]

theorem isSome_of_direct {edge : Edge} {id other : Text}
    (member : edge ∈ graph.directEdges id other) : edge.condition.isSome = false :=
  (mem_directEdges.mp member).2

theorem branchTargets_writingOrder (writable : graph.Writable entry terminal owner) {edge : Edge}
    (member : edge ∈ graph.edges) {id : Text} (touched : edge.source = id ∨ edge.target = id) :
    graph.branchTargets id =
      ((((graph.writingOrder entry terminal).map graph.spell).filter
        fun spelled => spelled.2.2.isSome).filter fun spelled => spelled.1 == graph.specName id).map
          fun spelled => spelled.2.1 := by
  have direct : (graph.directEdges entry.id terminal.id).filter
      ((fun spelled => spelled.2.2.isSome) ∘ graph.spell) = [] :=
    List.filter_eq_nil_iff.mpr fun other inside => by
      simp [spell, isSome_of_direct inside]
  have branches : (graph.groups.flatMap Prod.snd).filter
      ((fun spelled => spelled.2.2.isSome) ∘ graph.spell) = graph.groups.flatMap Prod.snd := by
    apply List.filter_eq_self.mpr
    intro other inside
    have known := (gathered_groups graph).whole.mem_iff.mp inside
    exact (List.mem_filter.mp known).2
  have named : (graph.groups.flatMap Prod.snd).filter
      ((fun spelled => spelled.1 == graph.specName id) ∘ graph.spell) =
        (graph.groups.flatMap Prod.snd).filter (·.source == id) := by
    apply List.filter_congr
    intro other inside
    have known := List.mem_of_mem_filter ((gathered_groups graph).whole.mem_iff.mp inside)
    cases here : other.source == id with
    | true => simp [spell, beq_iff_eq.mp here]
    | false =>
        have different : graph.specName other.source ≠ graph.specName id := fun same =>
          beq_eq_false_iff_ne.mp here
            (specName_injective writable known member (.inl rfl) touched same)
        simp [spell, different]
  rw [List.filter_map, writingOrder, List.filter_append, direct, branches, List.nil_append,
    List.filter_map, named, filter_groups, List.filter_filter, List.map_map, branchTargets, outgoing,
    List.filter_filter]
  congr 1
  apply List.filter_congr
  intro other _
  exact Bool.and_comm _ _

theorem touches_iff {edge : Edge} {id : Text} :
    edge.touches id = true ↔ edge.source = id ∨ edge.target = id := by
  simp [Edge.touches]

theorem stepLabel?_eq_some_iff {id label : Text} :
    graph.stepLabel? id = some label ↔
      ∃ node, graph.node? id = some node ∧ node.isStep = true ∧ node.label = label := by
  simp [stepLabel?, Option.map_eq_some_iff, Option.filter_eq_some_iff, and_assoc]

/-- A graph that was written and rebuilt has the same edges by name, the branches of each source in
the same order, and as its steps those that edges touched. -/
theorem rebuilt_topology {document : Spec.Document} (made : graph.toDocument config = .ok document)
    (countable : ∀ edge ∈ graph.edges, ∀ condition ∈ edge.condition,
      Spec.Document.IsCountable condition) :
    ∃ decoded, document.toGraph = .ok decoded ∧ decoded.unresolved = [] ∧
      (decoded.graph.edges.map decoded.graph.spell).Perm (graph.edges.map graph.spell) ∧
      (∀ edge ∈ graph.edges, ∀ id, edge.touches id = true →
        decoded.graph.branchTargets (document.resolve (graph.specName id)) =
          graph.branchTargets id) ∧
      (decoded.graph.steps.map Node.label).Nodup ∧
      ∀ label, label ∈ decoded.graph.steps.map Node.label ↔
        ∃ edge ∈ graph.edges, ∃ id, edge.touches id = true ∧
          ∃ node, graph.node? id = some node ∧ node.isStep = true ∧ node.label = label := by
  obtain ⟨entry, terminal, owner, writable, rfl⟩ := toDocument_eq_ok_iff.mp made
  obtain ⟨labels, groups, read, rebuilt⟩ := @toGraph_written graph config _ _ _ writable countable
  have spelled : ((graph.written config entry terminal).graphWith labels groups).edges.map
      ((graph.written config entry terminal).graphWith labels groups).spell =
        (graph.writingOrder entry terminal).map graph.spell := by
    rw [← spelled_written writable.toShaped]
    exact Spec.Document.spell_edgesFrom (knows_written writable)
  have steps : ((graph.written config entry terminal).graphWith labels groups).steps.map Node.label =
      (graph.written config entry terminal).nodes := by
    rw [Graph.steps, (Spec.Document.ofKind_graphWith _ labels groups).2.2,
      Spec.Document.map_label_steps]
  refine ⟨_, rebuilt, rfl, ?_, ?_, ?_, ?_⟩
  · exact (List.Perm.of_eq spelled).trans ((writingOrder_perm graph entry terminal).map _)
  · intro edge member id touched
    have touches := touches_iff.mp touched
    have known : (graph.written config entry terminal).Knows (graph.specName id) :=
      knows_touched writable member touches
    rw [branchTargets_writingOrder writable member touches, ← spelled]
    apply branchTargets_eq
    intro other inside
    obtain ⟨source, named, _, _, same, _⟩ := Spec.Document.ends_of_edgesFrom inside
    rw [same, Spec.Document.specName_resolve (knows_written writable source named)]
    constructor
    · exact Spec.Document.resolve_injective (knows_written writable source named) known
    · exact fun equal => congrArg _ equal
  · rw [steps]
    exact nodup_foldl_addNew List.nodup_nil _
  · intro label
    rw [steps, written, mem_foldl_addNew]
    simp only [List.not_mem_nil, false_or, List.mem_filterMap, mem_visited, stepLabel?_eq_some_iff]
    constructor
    · rintro ⟨id, ⟨edge, member, touched⟩, node, found, step, same⟩
      exact ⟨edge, member, id, touches_iff.mpr touched, node, found, step, same⟩
    · rintro ⟨edge, member, id, touched, node, found, step, same⟩
      exact ⟨id, ⟨edge, member, touches_iff.mp touched⟩, node, found, step, same⟩

/-- A graph with a loop, two edges alike, and a source with edges of both kinds. -/
def crossing : Graph where
  nodes := [.step "a" "Plan" .origin, .entry, .terminal, .step "b" "Act" .origin]
  edges := [.branch "1" "a" "b" "conditional_edge_12", .direct "2" "source" "a",
    .branch "3" "a" "end" "conditional_edge_12", .direct "4" "a" "a", .direct "5" "b" "end",
    .direct "5" "b" "end"]
  conditionLabels := []
  groupCount := 0
  nodeCount := 0
  edgeCount := 0

theorem rebuilt_topology_crossing :
    ∃ document decoded, crossing.toDocument .standard = .ok document ∧
      (∀ edge ∈ crossing.edges, ∀ condition ∈ edge.condition,
        Spec.Document.IsCountable condition) ∧
      document.toGraph = .ok decoded ∧ decoded.unresolved = [] ∧
      (decoded.graph.edges.map decoded.graph.spell).Perm (crossing.edges.map crossing.spell) ∧
      decoded.graph.edges.length = 6 := by
  have made : crossing.toDocument .standard = .ok ⟨.standard, ["Plan", "Act"],
      [.direct "__start__" "Plan", .direct "Act" "__end__", .direct "Act" "__end__",
        .direct "Plan" "Plan", .branch "Plan" "conditional_edge_12" ["Act", "__end__"]]⟩ := by rfl
  have countable : ∀ edge ∈ crossing.edges, ∀ condition ∈ edge.condition,
      Spec.Document.IsCountable condition := by decide +kernel
  obtain ⟨decoded, rebuilt, none, edges, _⟩ := rebuilt_topology made countable
  have count := edges.length_eq
  rw [List.length_map, List.length_map] at count
  exact ⟨_, decoded, made, countable, rebuilt, none, edges, count⟩

end Graph

end Workflow
