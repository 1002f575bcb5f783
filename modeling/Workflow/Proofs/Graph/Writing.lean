import Workflow.Proofs.Graph.Groups

/-! What a graph must be like to be written, and what is written of it. -/

namespace Workflow

namespace Table

/-- A function that gives to every key what the table has for it. -/
def Agrees (table : Table Text) (f : Text → Text) : Prop :=
  ∀ key value, table.get? key = some value → f key = value

theorem agrees_getD (table : Table Text) : table.Agrees fun key => (table.get? key).getD "" :=
  fun _ _ found => congrArg (·.getD "") found

theorem agrees_nil (f : Text → Text) : Agrees [] f :=
  fun _ _ found => absurd found (by simp [get?])

theorem agrees_put {table : Table Text} {key value : Text} (absent : table.get? key = none)
    {f : Text → Text} : (table.put key value).Agrees f ↔ f key = value ∧ table.Agrees f := by
  constructor
  · intro agrees
    refine ⟨agrees key value (get?_put_self key value table), ?_⟩
    intro name known found
    apply agrees name known
    rw [get?_put_of_ne, found]
    intro equal
    subst equal
    exact absurd (absent.symm.trans found) (by simp)
  · rintro ⟨own, agrees⟩ name known found
    by_cases same : name = key
    · subst same
      rw [get?_put_self] at found
      exact own.trans (Option.some.inj found)
    · rw [get?_put_of_ne same] at found
      exact agrees name known found

/-! What a loop that puts, checks or refuses one more entry asks of the functions in question. -/

variable {table : Table Text} {key value held : Text} {P : (Text → Text) → Prop}

theorem exists_agrees_put (absent : table.get? key = none) :
    (∃ f, (table.put key value).Agrees f ∧ P f) ↔ ∃ f, table.Agrees f ∧ f key = value ∧ P f := by
  apply exists_congr
  intro f
  rw [agrees_put absent, and_assoc, and_left_comm]

theorem exists_agrees_same (known : table.get? key = some value) :
    (∃ f, table.Agrees f ∧ P f) ↔ ∃ f, table.Agrees f ∧ f key = value ∧ P f := by
  apply exists_congr
  intro f
  apply and_congr_right
  intro before
  exact (and_iff_right (before key value known)).symm

theorem not_exists_agrees (known : table.get? key = some held) (different : held ≠ value) :
    ¬∃ f, table.Agrees f ∧ f key = value ∧ P f := by
  rintro ⟨f, before, own, _⟩
  exact different ((before key held known).symm.trans own)

end Table

namespace Graph

theorem firstMixed?_eq_none_iff {seen : Table Text} {edges : List Edge} :
    firstMixed? seen edges = none ↔
      ∃ label : Text → Text, seen.Agrees label ∧
        ∀ edge ∈ edges, ∀ condition, edge.condition = some condition →
          label edge.source = condition := by
  induction edges generalizing seen with
  | nil =>
      refine ⟨fun _ => ⟨_, seen.agrees_getD, ?_⟩, fun _ => rfl⟩
      exact fun edge member => absurd member List.not_mem_nil
  | cons edge rest ih =>
      simp only [List.forall_mem_cons]
      rw [firstMixed?]
      cases here : edge.condition with
      | none =>
          simp only [reduceCtorEq, false_implies, implies_true, true_and]
          exact ih
      | some condition =>
          simp only [Option.some.injEq, forall_eq']
          cases known : seen.get? edge.source with
          | none => exact ih.trans (Table.exists_agrees_put known)
          | some expected =>
              by_cases same : condition = expected
              · subst same
                simp only [↓reduceIte]
                exact ih.trans (Table.exists_agrees_same known)
              · simp only [same, ↓reduceIte]
                exact iff_of_false (by simp) (Table.not_exists_agrees known (Ne.symm same))

/-- A graph of one entry and one terminal whose edges have ends, and one condition for each source. -/
structure Shaped (graph : Graph) (entry terminal : Node) : Prop where
  entry : graph.ofKind .entry = [entry]
  terminal : graph.ofKind .terminal = [terminal]
  source : ∀ edge ∈ graph.edges, edge.source ∈ graph.nodeIds
  target : ∀ edge ∈ graph.edges, edge.target ∈ graph.nodeIds
  condition : ∃ label : Text → Text, ∀ edge ∈ graph.edges, ∀ condition,
    edge.condition = some condition → label edge.source = condition

theorem firstUnknown?_eq_none_iff {graph : Graph} {edge : Edge} :
    graph.firstUnknown? edge = none ↔ edge.source ∈ graph.nodeIds ∧ edge.target ∈ graph.nodeIds := by
  rw [← hasNode_iff, ← hasNode_iff, firstUnknown?]
  cases graph.hasNode edge.source with
  | false => simp
  | true => cases graph.hasNode edge.target <;> simp

theorem checkShape_eq_ok_iff {graph : Graph} :
    graph.checkShape = .ok () ↔ ∃ entry terminal, graph.Shaped entry terminal := by
  have ends : graph.edges.findSome? graph.firstUnknown? = none ↔
      ∀ edge ∈ graph.edges, edge.source ∈ graph.nodeIds ∧ edge.target ∈ graph.nodeIds := by
    rw [List.findSome?_eq_none_iff]
    exact forall_congr' fun edge => imp_congr_right fun _ => firstUnknown?_eq_none_iff
  have mixed := @firstMixed?_eq_none_iff [] graph.edges
  constructor
  · intro checked
    rw [checkShape] at checked
    cases entry : graph.single .entry with
    | error violation => simp [entry, bind, Except.bind] at checked
    | ok entryNode =>
        cases terminal : graph.single .terminal with
        | error violation => simp [entry, terminal, bind, Except.bind] at checked
        | ok terminalNode =>
            simp only [entry, terminal, bind, Except.bind] at checked
            split at checked
            · simp [throw, throwThe, MonadExceptOf.throw] at checked
            · rename_i known
              split at checked
              · simp [throw, throwThe, MonadExceptOf.throw] at checked
              · rename_i single
                obtain ⟨label, _, conditions⟩ := mixed.mp single
                exact ⟨entryNode, terminalNode, single_eq_ok_iff.mp entry,
                  single_eq_ok_iff.mp terminal, fun edge member => (ends.mp known edge member).1,
                  fun edge member => (ends.mp known edge member).2, label, conditions⟩
  · rintro ⟨entry, terminal, shaped⟩
    obtain ⟨label, conditions⟩ := shaped.condition
    have known := ends.mpr fun edge member => ⟨shaped.source edge member, shaped.target edge member⟩
    have single := mixed.mpr ⟨label, Table.agrees_nil label, conditions⟩
    simp only [checkShape, single_eq_ok_iff.mpr shaped.entry, single_eq_ok_iff.mpr shaped.terminal,
      bind, Except.bind, known, single]
    rfl

/-- The node of an id, if it is a step, can be written by its label, whose owner it is. -/
def OwnsLabel (graph : Graph) (owner : Text → Text) (id : Text) : Prop :=
  ∀ node, graph.node? id = some node → node.isStep = true →
    node.label ≠ "" ∧ node.label ≠ Spec.startName ∧ node.label ≠ Spec.endName ∧
      owner node.label = node.id

theorem ownsLabel_iff {graph : Graph} {id : Text} {node : Node} (found : graph.node? id = some node)
    (step : node.isStep = true) {owner : Text → Text} :
    graph.OwnsLabel owner id ↔ node.label ≠ "" ∧ node.label ≠ Spec.startName ∧
      node.label ≠ Spec.endName ∧ owner node.label = node.id := by
  constructor
  · exact fun owns => owns node found step
  · intro fits other same _
    obtain rfl := Option.some.inj (found.symm.trans same)
    exact fits

/-- Labels are collected just if each has one owner, agreeing with the owners known before. -/
theorem collectLabels_eq_ok_iff {graph : Graph} {owners : Table Text} {ids : List Text} :
    (∃ found, graph.collectLabels owners ids = .ok found) ↔
      ∃ owner : Text → Text, owners.Agrees owner ∧ ∀ id ∈ ids, graph.OwnsLabel owner id := by
  induction ids generalizing owners with
  | nil =>
      refine ⟨fun _ => ⟨_, owners.agrees_getD, ?_⟩, fun _ => ⟨owners, rfl⟩⟩
      exact fun id member => absurd member List.not_mem_nil
  | cons id rest ih =>
      simp only [List.forall_mem_cons]
      rw [collectLabels]
      cases here : graph.node? id with
      | none =>
          have free (owner : Text → Text) : graph.OwnsLabel owner id := by
            intro node found
            exact absurd (here.symm.trans found) (by simp)
          simp only [free, true_and]
          exact ih
      | some node =>
          cases step : node.isStep with
          | false =>
              have free (owner : Text → Text) : graph.OwnsLabel owner id := by
                intro other found isStep
                obtain rfl := Option.some.inj (here.symm.trans found)
                exact absurd (step.symm.trans isStep) (by simp)
              simp only [free, true_and, step, Bool.not_false, ↓reduceIte]
              exact ih
          | true =>
              simp only [ownsLabel_iff here step, step, Bool.not_true, Bool.false_eq_true,
                ↓reduceIte, Text.isEmpty_iff]
              by_cases empty : node.label = ""
              · simp [empty]
              · by_cases reserved : node.label = Spec.startName ∨ node.label = Spec.endName
                · rw [if_neg empty, if_pos reserved]
                  constructor
                  · rintro ⟨found, impossible⟩
                    exact absurd impossible (by simp)
                  · rintro ⟨owner, _, ⟨_, notStart, notEnd, _⟩, _⟩
                    exact absurd reserved (not_or.mpr ⟨notStart, notEnd⟩)
                · obtain ⟨notStart, notEnd⟩ := not_or.mp reserved
                  rw [if_neg empty, if_neg reserved]
                  simp only [ne_eq, empty, notStart, notEnd, not_false_eq_true, true_and]
                  cases known : owners.get? node.label with
                  | none => exact ih.trans (Table.exists_agrees_put known)
                  | some holder =>
                      by_cases same : holder = node.id
                      · subst same
                        simp only [↓reduceIte]
                        exact ih.trans (Table.exists_agrees_same known)
                      · simp only [same, ↓reduceIte]
                        exact iff_of_false (by simp) (Table.not_exists_agrees known same)

def stepLabel? (graph : Graph) (id : Text) : Option Text :=
  ((graph.node? id).filter Node.isStep).map Node.label

def addNew (known : List Text) (name : Text) : List Text :=
  if name ∈ known then known else known ++ [name]

theorem keys_put (table : Table Text) (key value : Text) :
    (table.put key value).keys = addNew table.keys key := by
  by_cases present : key ∈ table.keys
  · rw [Table.keys_put_of_has present, addNew, if_pos present]
  · rw [Table.keys_put_of_not_has present, addNew, if_neg present]

theorem mem_foldl_addNew {known names : List Text} {name : Text} :
    name ∈ names.foldl addNew known ↔ name ∈ known ∨ name ∈ names := by
  induction names generalizing known with
  | nil => simp
  | cons first rest ih =>
      rw [List.foldl_cons, ih, addNew]
      split
      · rename_i present
        simp only [List.mem_cons]
        constructor
        · rintro (old | further)
          · exact .inl old
          · exact .inr (.inr further)
        · rintro (old | rfl | further)
          · exact .inl old
          · exact .inl present
          · exact .inr further
      · simp only [List.mem_append, List.mem_cons, List.not_mem_nil, or_false, or_assoc]

theorem nodup_foldl_addNew {known : List Text} (distinct : known.Nodup) (names : List Text) :
    (names.foldl addNew known).Nodup := by
  induction names generalizing known with
  | nil => exact distinct
  | cons first rest ih =>
      apply ih
      rw [addNew]
      split
      · exact distinct
      · rename_i absent
        rw [List.nodup_append]
        refine ⟨distinct, List.nodup_singleton _, ?_⟩
        intro name member other new same
        obtain rfl := List.mem_singleton.mp new
        exact absent (same ▸ member)

theorem keys_collectLabels {graph : Graph} {owners found : Table Text} {ids : List Text}
    (collected : graph.collectLabels owners ids = .ok found) :
    found.keys = (ids.filterMap graph.stepLabel?).foldl addNew owners.keys := by
  induction ids generalizing owners with
  | nil =>
      obtain rfl := Except.ok.inj collected
      rfl
  | cons id rest ih =>
      rw [collectLabels] at collected
      rw [List.filterMap_cons, stepLabel?]
      cases here : graph.node? id with
      | none =>
          rw [here] at collected
          exact ih collected
      | some node =>
          rw [here] at collected
          cases step : node.isStep with
          | false =>
              simp only [step, Bool.not_false, ↓reduceIte] at collected
              simp only [Option.filter_some, step, Bool.false_eq_true, ↓reduceIte, Option.map_none]
              exact ih collected
          | true =>
              simp only [step, Bool.not_true, Bool.false_eq_true, ↓reduceIte] at collected
              simp only [Option.filter_some, step, ↓reduceIte, Option.map_some, List.foldl_cons]
              split at collected
              · exact absurd collected (by simp)
              · split at collected
                · exact absurd collected (by simp)
                · cases known : owners.get? node.label with
                  | none =>
                      rw [known] at collected
                      rw [← keys_put owners node.label node.id]
                      exact ih collected
                  | some holder =>
                      rw [known] at collected
                      have present : node.label ∈ owners.keys := by
                        apply Classical.byContradiction
                        intro absent
                        exact absurd ((Table.get?_eq_none_iff.mpr absent).symm.trans known) (by simp)
                      rw [addNew, if_pos present]
                      simp only at collected
                      split at collected
                      · exact ih collected
                      · exact absurd collected (by simp)

theorem mem_directEdges {graph : Graph} {entry terminal : Text} {edge : Edge} :
    edge ∈ graph.directEdges entry terminal ↔ edge ∈ graph.edges ∧ edge.isBranch = false := by
  simp only [directEdges, List.mem_append, List.mem_filter, Bool.not_eq_true', Bool.and_eq_true,
    beq_iff_eq, bne_iff_ne, ne_eq]
  constructor
  · rintro ((⟨direct, _⟩ | ⟨direct, _⟩) | ⟨direct, _⟩) <;> exact direct
  · intro direct
    by_cases first : edge.source = entry
    · exact .inl (.inl ⟨direct, first⟩)
    · by_cases last : edge.target = terminal
      · exact .inl (.inr ⟨direct, last, first⟩)
      · exact .inr ⟨direct, first, last⟩

theorem directEdges_perm (graph : Graph) (entry terminal : Text) :
    (graph.directEdges entry terminal).Perm (graph.edges.filter (!·.isBranch)) := by
  rw [directEdges]
  generalize graph.edges.filter (!·.isBranch) = direct
  have inner : direct.filter (fun edge => edge.target == terminal && edge.source != entry) =
      (direct.filter fun edge => !(edge.source == entry)).filter (·.target == terminal) := by
    rw [List.filter_filter]
    rfl
  have outer : direct.filter (fun edge => edge.source != entry && edge.target != terminal) =
      (direct.filter fun edge => !(edge.source == entry)).filter
        fun edge => !(edge.target == terminal) := by
    rw [List.filter_filter]
    apply List.filter_congr
    intro edge _
    exact Bool.and_comm _ _
  simp only [inner, outer, List.append_assoc]
  have behind := List.filter_append_perm (fun edge : Edge => edge.target == terminal)
    (direct.filter fun edge => !(edge.source == entry))
  have whole := List.filter_append_perm (fun edge : Edge => edge.source == entry) direct
  exact (behind.append_left _).trans whole

theorem mem_visited {graph : Graph} {entry terminal id : Text} :
    id ∈ visited (graph.directEdges entry terminal) graph.groups ↔
      ∃ edge ∈ graph.edges, edge.source = id ∨ edge.target = id := by
  have gathered := gathered_groups graph
  simp only [visited, List.mem_append, List.mem_flatMap]
  constructor
  · rintro (⟨edge, member, named⟩ | ⟨⟨source, members⟩, member, named⟩)
    · obtain ⟨known, _⟩ := mem_directEdges.mp member
      refine ⟨edge, known, ?_⟩
      rcases List.mem_cons.mp named with here | there
      · exact .inl here.symm
      · exact .inr (List.mem_singleton.mp there).symm
    · obtain ⟨filled, same⟩ := gathered.members source members member
      have own {edge : Edge} (inside : edge ∈ members) : edge ∈ graph.edges ∧ edge.source = source := by
        rw [same] at inside
        obtain ⟨branch, equal⟩ := List.mem_filter.mp inside
        exact ⟨List.mem_of_mem_filter branch, beq_iff_eq.mp equal⟩
      rcases List.mem_cons.mp named with here | there
      · obtain ⟨edge, rest, rfl⟩ := List.exists_cons_of_ne_nil filled
        obtain ⟨known, equal⟩ := own List.mem_cons_self
        exact ⟨edge, known, .inl (equal.trans here.symm)⟩
      · obtain ⟨edge, inside, equal⟩ := List.mem_map.mp there
        exact ⟨edge, (own inside).1, .inr equal⟩
  · rintro ⟨edge, member, touched⟩
    cases branch : edge.isBranch with
    | false =>
        refine .inl ⟨edge, mem_directEdges.mpr ⟨member, branch⟩, ?_⟩
        rcases touched with rfl | rfl
        · exact List.mem_cons_self
        · exact List.mem_cons_of_mem _ List.mem_cons_self
    | true =>
        have inside : edge ∈ graph.groups.flatMap Prod.snd :=
          gathered.whole.mem_iff.mpr (List.mem_filter.mpr ⟨member, branch⟩)
        obtain ⟨⟨source, members⟩, group, own⟩ := List.mem_flatMap.mp inside
        refine .inr ⟨(source, members), group, ?_⟩
        rcases touched with rfl | rfl
        · obtain ⟨_, same⟩ := gathered.members source members group
          rw [same] at own
          rw [beq_iff_eq.mp (List.mem_filter.mp own).2]
          exact List.mem_cons_self
        · exact List.mem_cons_of_mem _ (List.mem_map_of_mem own)

/-- What is written of a graph with the given reserved nodes. -/
def written (graph : Graph) (config : Spec.Config) (entry terminal : Node) : Spec.Document :=
  ⟨config,
    ((visited (graph.directEdges entry.id terminal.id) graph.groups).filterMap
      graph.stepLabel?).foldl addNew [],
    (graph.directEdges entry.id terminal.id).map graph.directEntry ++
      graph.groups.map graph.groupEntry⟩

/-- A graph that can be written: its checks pass, and each label has one owner. -/
structure Writable (graph : Graph) (entry terminal : Node) (owner : Text → Text) : Prop extends
    graph.Shaped entry terminal where
  owns : ∀ edge ∈ graph.edges, graph.OwnsLabel owner edge.source ∧ graph.OwnsLabel owner edge.target

theorem toDocument_eq_ok_iff {graph : Graph} {config : Spec.Config} {document : Spec.Document} :
    graph.toDocument config = .ok document ↔
      ∃ entry terminal owner, graph.Writable entry terminal owner ∧
        document = graph.written config entry terminal := by
  have touched (entry terminal : Node) (owner : Text → Text) :
      (∀ id ∈ visited (graph.directEdges entry.id terminal.id) graph.groups,
          graph.OwnsLabel owner id) ↔
        ∀ edge ∈ graph.edges,
          graph.OwnsLabel owner edge.source ∧ graph.OwnsLabel owner edge.target := by
    constructor
    · intro owns edge member
      exact ⟨owns _ (mem_visited.mpr ⟨edge, member, .inl rfl⟩),
        owns _ (mem_visited.mpr ⟨edge, member, .inr rfl⟩)⟩
    · intro owns id member
      obtain ⟨edge, known, rfl | rfl⟩ := mem_visited.mp member
      · exact (owns edge known).1
      · exact (owns edge known).2
  constructor
  · intro made
    rw [toDocument] at made
    cases checked : graph.checkShape with
    | error violation => simp [checked, bind, Except.bind] at made
    | ok _ =>
        obtain ⟨entry, terminal, shaped⟩ := checkShape_eq_ok_iff.mp checked
        simp only [checked, single_eq_ok_iff.mpr shaped.entry,
          single_eq_ok_iff.mpr shaped.terminal, bind, Except.bind] at made
        split at made
        · exact absurd made (by simp)
        · rename_i owners collected
          obtain ⟨owner, _, owns⟩ := collectLabels_eq_ok_iff.mp ⟨owners, collected⟩
          refine ⟨entry, terminal, owner, ⟨shaped, (touched entry terminal owner).mp owns⟩, ?_⟩
          rw [written, ← Except.ok.inj made, keys_collectLabels collected]
          rfl
  · rintro ⟨entry, terminal, owner, writable, rfl⟩
    have checked := checkShape_eq_ok_iff.mpr ⟨entry, terminal, writable.toShaped⟩
    obtain ⟨owners, collected⟩ := collectLabels_eq_ok_iff.mpr
      ⟨owner, Table.agrees_nil owner, (touched entry terminal owner).mpr writable.owns⟩
    simp only [toDocument, checked, single_eq_ok_iff.mpr writable.entry,
      single_eq_ok_iff.mpr writable.terminal, bind, Except.bind, collected]
    rw [written, keys_collectLabels collected]
    rfl

end Graph

end Workflow
