import Workflow.Proofs.Graph.GroupLabel

/-! Labels of groups in a graph that was written and rebuilt: a source has the label that its branches
carried, and none if all its edges were direct. -/

namespace Workflow

/-- Nodes of two graphs that stand for each other: reserved nodes of one kind, or steps of one label. -/
structure Node.IsTwin (node twin : Node) : Prop where
  kind : twin.kind = node.kind
  label : node.isStep = true → twin.label = node.label

namespace Spec.Document

variable {document : Document}

theorem entry_of_conditionsFrom {labels found : Table Text} {index : Nat} {entries : List Entry}
    (read : document.conditionsFrom labels index entries = .ok found) {id condition : Text}
    (known : found.get? id = some condition) :
    labels.get? id = some condition ∨
      ∃ source paths, .branch source condition paths ∈ entries ∧ document.resolve source = id := by
  induction entries generalizing labels index with
  | nil =>
      obtain rfl := Except.ok.inj read
      exact .inl known
  | cons entry rest ih =>
      have later (source : Text) (paths : List Text)
          (member : .branch source condition paths ∈ rest ∧ document.resolve source = id) :
          ∃ source paths, .branch source condition paths ∈ entry :: rest ∧
            document.resolve source = id :=
        ⟨source, paths, List.mem_cons_of_mem _ member.1, member.2⟩
      cases entry with
      | direct source target =>
          rcases ih read with before | ⟨source, paths, member⟩
          · exact .inl before
          · exact .inr (later source paths member)
      | branch source own paths =>
          rw [conditionsFrom] at read
          split at read
          · rcases ih read with before | ⟨source, paths, member⟩
            · by_cases same : id = document.resolve source
              · rw [same, Table.get?_put_self] at before
                obtain rfl := Option.some.inj before
                exact .inr ⟨source, paths, List.mem_cons_self, same.symm⟩
              · rw [Table.get?_put_of_ne same] at before
                exact .inl before
            · exact .inr (later source paths member)
          · split at read
            · rcases ih read with before | ⟨source, paths, member⟩
              · exact .inl before
              · exact .inr (later source paths member)
            · cases read

theorem resolve_startName (document : Document) : document.resolve startName = Node.entry.id := by
  rw [resolve_eq, idOf?, if_pos rfl, Option.getD_some]

theorem resolve_endName (document : Document) : document.resolve endName = Node.terminal.id := by
  rw [resolve_eq, idOf?, if_neg endName_ne_startName, if_pos rfl, Option.getD_some]

end Spec.Document

namespace Graph

variable {graph : Graph} {config : Spec.Config} {entry terminal : Node} {owner : Text → Text}
  {labels : Table Text} {groups : Int} {edge : Edge}

theorem entry_of_branch (shaped : graph.Shaped entry terminal) (member : edge ∈ graph.edges)
    {condition : Text} (branch : edge.condition = some condition) :
    ∃ paths, .branch (graph.specName edge.source) condition paths ∈
      (graph.written config entry terminal).edges := by
  have inside : edge ∈ graph.groups.flatMap Prod.snd := by
    apply (gathered_groups graph).whole.mem_iff.mpr
    exact List.mem_filter.mpr ⟨member, by rw [Edge.isBranch, branch]; rfl⟩
  obtain ⟨⟨source, members⟩, group, own⟩ := List.mem_flatMap.mp inside
  have same : edge.source = source := ((group_of_mem group).2 edge own).2.1
  have carried := (condition_of_group shaped group own).symm.trans branch
  have entered := List.mem_map_of_mem (f := graph.groupEntry) group
  rw [groupEntry, Option.some.inj carried, ← same] at entered
  exact ⟨_, List.mem_append_right _ entered⟩

theorem branch_of_entry (shaped : graph.Shaped entry terminal) {source condition : Text}
    {paths : List Text}
    (entered : .branch source condition paths ∈ (graph.written config entry terminal).edges) :
    ∃ edge ∈ graph.edges, graph.specName edge.source = source ∧ edge.condition = some condition := by
  rcases List.mem_append.mp entered with direct | grouped
  · obtain ⟨edge, _, impossible⟩ := List.mem_map.mp direct
    exact absurd impossible (by simp [directEntry])
  · obtain ⟨⟨id, members⟩, group, same⟩ := List.mem_map.mp grouped
    obtain ⟨rfl, rfl, _⟩ := Spec.Entry.branch.inj same
    obtain ⟨filled, own⟩ := group_of_mem group
    obtain ⟨edge, rest, rfl⟩ := List.exists_cons_of_ne_nil filled
    obtain ⟨known, source, _⟩ := own edge List.mem_cons_self
    exact ⟨edge, known, by rw [source], condition_of_group shaped group List.mem_cons_self⟩

theorem groupLabel_rebuilt (writable : graph.Writable entry terminal owner)
    (read : (graph.written config entry terminal).conditions = .ok labels) (groups : Int)
    (member : edge ∈ graph.edges) :
    ((graph.written config entry terminal).graphWith labels groups).groupLabel
        ((graph.written config entry terminal).resolve (graph.specName edge.source)) =
      (graph.outgoing edge.source).findSome? Edge.condition := by
  rw [groupLabel_of_agreed (Spec.Document.agreed_graphWith read groups _)]
  change labels.get? _ = _
  cases found : (graph.outgoing edge.source).findSome? Edge.condition with
  | some condition =>
      obtain ⟨other, inside, branch⟩ := List.exists_of_findSome?_eq_some found
      obtain ⟨known, same⟩ := mem_outgoing.mp inside
      obtain ⟨paths, entered⟩ := @entry_of_branch graph config _ _ _ writable.toShaped known _ branch
      rw [← same]
      exact (Spec.Document.get?_conditionsFrom read).2 _ condition paths entered
  | none =>
      cases kept : labels.get?
          ((graph.written config entry terminal).resolve (graph.specName edge.source)) with
      | none => rfl
      | some condition =>
          rcases Spec.Document.entry_of_conditionsFrom read kept with
            impossible | ⟨source, paths, entered, led⟩
          · cases impossible
          · obtain ⟨other, known, rfl, branch⟩ := branch_of_entry writable.toShaped entered
            have same := resolve_specName writable known member (.inl rfl) (.inl rfl) led
            have absent := List.findSome?_eq_none_iff.mp found other (mem_outgoing.mpr ⟨known, same⟩)
            exact absurd (absent.symm.trans branch) (by simp)

theorem resolve_step {document : Spec.Document} (distinct : document.nodes.Nodup) {step : Node}
    (member : step ∈ document.steps) (notStart : step.label ≠ Spec.startName)
    (notEnd : step.label ≠ Spec.endName) : document.resolve step.label = step.id := by
  rw [Spec.Document.resolve_eq, Spec.Document.idOf?, if_neg notStart, if_neg notEnd]
  cases found : document.steps.find? (·.label == step.label) with
  | none =>
      have absent := List.find?_eq_none.mp found step member
      simp at absent
  | some other =>
      have inside := List.mem_of_find?_eq_some found
      have same : other.label = step.label := by simpa using List.find?_some found
      rw [← Spec.Document.map_label_steps] at distinct
      rw [List.inj_on_of_nodup_map distinct inside member same]
      rfl

theorem nodup_written (graph : Graph) (config : Spec.Config) (entry terminal : Node) :
    (graph.written config entry terminal).nodes.Nodup :=
  nodup_foldl_addNew List.nodup_nil _

/-- A node that edges leave has a twin in the rebuilt graph. -/
theorem exists_twin (writable : graph.Writable entry terminal owner) (member : edge ∈ graph.edges)
    {node : Node} (found : graph.node? edge.source = some node) :
    ∃ twin ∈ ((graph.written config entry terminal).graphWith labels groups).nodes,
      node.IsTwin twin := by
  cases kind : node.kind with
  | entry =>
      have reserved : node.isStep = false := by rw [Node.isStep, kind]; rfl
      refine ⟨.entry, List.mem_cons_self, kind.symm, fun step => ?_⟩
      exact absurd (reserved.symm.trans step) (by simp)
  | terminal =>
      have reserved : node.isStep = false := by rw [Node.isStep, kind]; rfl
      refine ⟨.terminal, List.mem_cons_of_mem _ List.mem_cons_self, kind.symm, fun step => ?_⟩
      exact absurd (reserved.symm.trans step) (by simp)
  | step =>
      have isStep : node.isStep = true := by rw [Node.isStep, kind]; rfl
      obtain ⟨_, notStart, notEnd, _⟩ := (writable.owns edge member).1 node found isStep
      have name : graph.specName edge.source = node.label := by
        rw [specName_of_node? found, Node.specName, kind]
      have named := @knows_touched graph config _ _ _ writable edge member _ (.inl rfl)
      rw [name] at named
      rcases named with start | stop | known
      · exact absurd start notStart
      · exact absurd stop notEnd
      · rw [← Spec.Document.map_label_steps] at known
        obtain ⟨twin, inside, same⟩ := List.mem_map.mp known
        refine ⟨twin, List.mem_cons_of_mem _ (List.mem_cons_of_mem _ inside), ?_, fun _ => same⟩
        rw [Spec.Document.kind_of_steps inside, kind]

theorem id_of_twin (writable : graph.Writable entry terminal owner) (member : edge ∈ graph.edges)
    {node twin : Node} (found : graph.node? edge.source = some node)
    (inside : twin ∈ ((graph.written config entry terminal).graphWith labels groups).nodes)
    (isTwin : node.IsTwin twin) :
    twin.id = (graph.written config entry terminal).resolve (graph.specName edge.source) := by
  obtain ⟨entries, terminals, steps⟩ := Spec.Document.ofKind_graphWith
    (graph.written config entry terminal) labels groups
  rw [specName_of_node? found, Node.specName]
  cases kind : node.kind with
  | entry =>
      rw [eq_of_ofKind entries inside (isTwin.kind.trans kind)]
      exact (Spec.Document.resolve_startName _).symm
  | terminal =>
      rw [eq_of_ofKind terminals inside (isTwin.kind.trans kind)]
      exact (Spec.Document.resolve_endName _).symm
  | step =>
      have isStep : node.isStep = true := by rw [Node.isStep, kind]; rfl
      obtain ⟨_, notStart, notEnd, _⟩ := (writable.owns edge member).1 node found isStep
      have step : twin ∈ (graph.written config entry terminal).steps := by
        rw [← steps]
        exact List.mem_filter.mpr ⟨inside, beq_iff_eq.mpr (isTwin.kind.trans kind)⟩
      rw [← isTwin.label isStep] at notStart notEnd ⊢
      exact (resolve_step (nodup_written graph config entry terminal) step notStart notEnd).symm

end Graph

end Workflow
