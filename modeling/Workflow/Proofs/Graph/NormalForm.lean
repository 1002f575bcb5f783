import Workflow.Proofs.Graph.RoundTrip

/-! What is written of a graph is a normal form: rebuilt and written again it is the same. -/

namespace Workflow

namespace Spec.Entry

def IsDirect (entry : Entry) : Prop := ∃ source target, entry = .direct source target

/-- The entry of branches, of which there is at least one. -/
def IsGroup (entry : Entry) : Prop :=
  ∃ source condition paths, entry = .branch source condition paths ∧ paths ≠ []

def leavesStart (entry : Entry) : Bool := entry.source == startName

def reachesEnd : Entry → Bool
  | .direct _ target => target == endName
  | .branch .. => false

def arrange (entries : List Entry) : List Entry :=
  entries.filter leavesStart ++
    entries.filter (fun entry => entry.reachesEnd && !entry.leavesStart) ++
    entries.filter (fun entry => !entry.leavesStart && !entry.reachesEnd)

theorem arrange_of_parts {first second third : List Entry}
    (starts : ∀ entry ∈ first, entry.leavesStart = true)
    (ends : ∀ entry ∈ second, entry.leavesStart = false ∧ entry.reachesEnd = true)
    (others : ∀ entry ∈ third, entry.leavesStart = false ∧ entry.reachesEnd = false) :
    arrange (first ++ second ++ third) = first ++ second ++ third := by
  have keep {p : Entry → Bool} {entries : List Entry} (all : ∀ entry ∈ entries, p entry = true) :
      entries.filter p = entries := List.filter_eq_self.mpr all
  have lose {p : Entry → Bool} {entries : List Entry} (none : ∀ entry ∈ entries, p entry = false) :
      entries.filter p = [] :=
    List.filter_eq_nil_iff.mpr fun entry member => by simp [none entry member]
  have one : (first ++ second ++ third).filter leavesStart = first := by
    rw [List.filter_append, List.filter_append, keep starts, lose fun entry member =>
      (ends entry member).1, lose fun entry member => (others entry member).1]
    simp
  have two : (first ++ second ++ third).filter (fun entry => entry.reachesEnd && !entry.leavesStart) =
      second := by
    rw [List.filter_append, List.filter_append, lose fun entry member => by simp [starts entry member],
      keep fun entry member => by simp [ends entry member],
      lose fun entry member => by simp [others entry member]]
    simp
  have three : (first ++ second ++ third).filter
      (fun entry => !entry.leavesStart && !entry.reachesEnd) = third := by
    rw [List.filter_append, List.filter_append, lose fun entry member => by simp [starts entry member],
      lose fun entry member => by simp [ends entry member],
      keep fun entry member => by simp [others entry member]]
    simp
  rw [arrange, one, two, three]

theorem arrange_arrange (entries : List Entry) : arrange (arrange entries) = arrange entries := by
  apply arrange_of_parts
  · exact fun entry member => (List.mem_filter.mp member).2
  · intro entry member
    have both := (List.mem_filter.mp member).2
    simp only [Bool.and_eq_true, Bool.not_eq_true'] at both
    exact ⟨both.2, both.1⟩
  · intro entry member
    have both := (List.mem_filter.mp member).2
    simp only [Bool.and_eq_true, Bool.not_eq_true'] at both
    exact both

end Spec.Entry

namespace Graph

variable {graph : Graph} {config : Spec.Config} {entry terminal : Node} {owner : Text → Text}

theorem specName_of_single (distinct : graph.nodeIds.Nodup) {kind : Kind} {only : Node}
    (single : graph.ofKind kind = [only]) : graph.specName only.id = only.specName := by
  have inside : only ∈ graph.ofKind kind := by
    rw [single]
    exact List.mem_cons_self
  exact specName_of_node? (node?_of_mem distinct (List.mem_of_mem_filter inside))

theorem kind_of_single {kind : Kind} {only : Node} (single : graph.ofKind kind = [only]) :
    only.kind = kind := by
  have inside : only ∈ graph.ofKind kind := by
    rw [single]
    exact List.mem_cons_self
  exact beq_iff_eq.mp (List.mem_filter.mp inside).2

theorem reserved_iff (shaped : graph.Shaped entry terminal) (distinct : graph.nodeIds.Nodup)
    {id : Text} (known : id ∈ graph.nodeIds) (owns : graph.OwnsLabel owner id) :
    (id = entry.id ↔ graph.specName id = Spec.startName) ∧
      (id = terminal.id ↔ graph.specName id = Spec.endName) := by
  have back := idOfName_specName shaped known owns
  have start : entry.specName = Spec.startName := by
    rw [Node.specName, kind_of_single shaped.entry]
  have stop : terminal.specName = Spec.endName := by
    rw [Node.specName, kind_of_single shaped.terminal]
  refine ⟨⟨?_, ?_⟩, ?_, ?_⟩
  · intro equal
    subst equal
    rw [specName_of_single distinct shaped.entry, start]
  · intro named
    rw [← back, named]
    exact if_pos rfl
  · intro equal
    subst equal
    rw [specName_of_single distinct shaped.terminal, stop]
  · intro named
    rw [← back, named]
    exact (if_neg Spec.endName_ne_startName).trans (if_pos rfl)

theorem directEntries_eq (writable : graph.Writable entry terminal owner)
    (distinct : graph.nodeIds.Nodup) :
    (graph.directEdges entry.id terminal.id).map graph.directEntry =
      Spec.Entry.arrange ((graph.edges.filter (!·.isBranch)).map graph.directEntry) := by
  have named {edge : Edge} (member : edge ∈ graph.edges.filter (!·.isBranch)) :
      (edge.source == entry.id) = (graph.directEntry edge).leavesStart ∧
        (edge.target == terminal.id) = (graph.directEntry edge).reachesEnd := by
    have known := List.mem_of_mem_filter member
    have source := (reserved_iff writable.toShaped distinct (writable.source edge known)
      (writable.owns edge known).1).1
    have target := (reserved_iff writable.toShaped distinct (writable.target edge known)
      (writable.owns edge known).2).2
    constructor
    · rw [Bool.eq_iff_iff, beq_iff_eq, source]
      exact beq_iff_eq.symm
    · rw [Bool.eq_iff_iff, beq_iff_eq, target]
      exact beq_iff_eq.symm
  unfold directEdges Spec.Entry.arrange
  simp only [List.map_append, List.filter_map]
  congr 1
  · congr 1
    · congr 1
      apply List.filter_congr
      intro edge member
      exact (named member).1
    · congr 1
      apply List.filter_congr
      intro edge member
      obtain ⟨source, target⟩ := named member
      simp only [Function.comp_apply, ← source, ← target]
      rfl
  · congr 1
    apply List.filter_congr
    intro edge member
    obtain ⟨source, target⟩ := named member
    simp only [Function.comp_apply, ← source, ← target]
    rfl

end Graph

namespace Spec.Document

variable {document : Document} {labels : Table Text} {groups : Int}

theorem ext {first second : Document} (config : first.config = second.config)
    (nodes : first.nodes = second.nodes) (edges : first.edges = second.edges) : first = second := by
  cases first
  cases second
  simp only [mk.injEq]
  exact ⟨config, nodes, edges⟩

theorem edgesFrom_append (document : Document) (index : Nat) (first second : List Entry) :
    document.edgesFrom index (first ++ second) =
      document.edgesFrom index first ++ document.edgesFrom (index + first.length) second := by
  induction first generalizing index with
  | nil => rfl
  | cons entry rest ih =>
      rw [List.cons_append, edgesFrom, edgesFrom, ih, List.append_assoc, List.length_cons]
      congr 3
      omega

theorem condition_of_edgesOf {index : Nat} {entry : Entry} {edge : Edge}
    (member : edge ∈ document.edgesOf index entry) :
    edge.condition = match entry with
      | .direct .. => none
      | .branch _ condition _ => some condition := by
  cases entry with
  | direct source target =>
      obtain rfl := List.mem_singleton.mp member
      rfl
  | branch source condition paths =>
      obtain ⟨⟨path, place⟩, _, rfl⟩ := List.mem_map.mp member
      rfl

theorem source_of_edgesOf {index : Nat} {entry : Entry} {edge : Edge}
    (member : edge ∈ document.edgesOf index entry) : edge.source = document.resolve entry.source := by
  cases entry with
  | direct source target =>
      obtain rfl := List.mem_singleton.mp member
      rfl
  | branch source condition paths =>
      obtain ⟨⟨path, place⟩, _, rfl⟩ := List.mem_map.mp member
      rfl

theorem mem_edgesFrom {index : Nat} {entries : List Entry} {edge : Edge}
    (member : edge ∈ document.edgesFrom index entries) :
    ∃ place, ∃ entry ∈ entries, edge ∈ document.edgesOf place entry := by
  induction entries generalizing index with
  | nil => exact absurd member List.not_mem_nil
  | cons entry rest ih =>
      rcases List.mem_append.mp member with here | further
      · exact ⟨index, entry, List.mem_cons_self, here⟩
      · obtain ⟨place, other, inside, found⟩ := ih further
        exact ⟨place, other, List.mem_cons_of_mem _ inside, found⟩

theorem branch_of_edgesFrom {index : Nat} {entries : List Entry} {edge : Edge} {condition : Text}
    (member : edge ∈ document.edgesFrom index entries) (branch : edge.condition = some condition) :
    ∃ source paths, .branch source condition paths ∈ entries ∧ edge.source = document.resolve source := by
  obtain ⟨place, entry, inside, found⟩ := mem_edgesFrom member
  have own := condition_of_edgesOf found
  have source := source_of_edgesOf found
  cases entry with
  | direct first second => exact absurd (own.symm.trans branch) (by simp)
  | branch first second third =>
      obtain rfl := Option.some.inj (own.symm.trans branch)
      exact ⟨first, third, inside, source⟩

theorem directEntry_edgesFrom {index : Nat} {entries : List Entry}
    (direct : ∀ entry ∈ entries, entry.IsDirect)
    (known : ∀ name ∈ entries.flatMap names, document.Knows name) :
    (document.edgesFrom index entries).map (document.graphWith labels groups).directEntry = entries := by
  induction entries generalizing index with
  | nil => rfl
  | cons entry rest ih =>
      obtain ⟨source, target, rfl⟩ := direct entry List.mem_cons_self
      have left := @specName_resolve document labels groups source
        (known source (List.mem_append_left _ List.mem_cons_self))
      have right := @specName_resolve document labels groups target
        (known target (List.mem_append_left _ (List.mem_cons_of_mem _ List.mem_cons_self)))
      rw [edgesFrom, List.map_append, ih fun other member =>
        direct other (List.mem_cons_of_mem _ member)]
      · simp only [edgesOf, List.map_cons, List.map_nil, Graph.directEntry, Edge.direct, left, right,
          List.cons_append, List.nil_append]
      · exact fun name member => known name (List.mem_append_right _ member)

def blocksFrom (document : Document) : Nat → List Entry → Table (List Edge)
  | _, [] => []
  | index, entry :: rest =>
    (document.resolve entry.source, document.edgesOf index entry) ::
      document.blocksFrom (index + 1) rest

theorem flatMap_blocksFrom (document : Document) (index : Nat) (entries : List Entry) :
    (document.blocksFrom index entries).flatMap Prod.snd = document.edgesFrom index entries := by
  induction entries generalizing index with
  | nil => rfl
  | cons entry rest ih => rw [blocksFrom, List.flatMap_cons, ih, edgesFrom]

theorem keys_blocksFrom (document : Document) (index : Nat) (entries : List Entry) :
    (document.blocksFrom index entries).keys =
      entries.map fun entry => document.resolve entry.source := by
  induction entries generalizing index with
  | nil => rfl
  | cons entry rest ih =>
      simp only [Table.keys] at ih
      simp only [Table.keys, blocksFrom, List.map_cons, ih]

theorem edgesOf_ne_nil {index : Nat} {source condition : Text} {paths : List Text}
    (filled : paths ≠ []) : document.edgesOf index (.branch source condition paths) ≠ [] := by
  rw [edgesOf, ne_eq, List.map_eq_nil_iff, List.zipIdx_eq_nil_iff]
  exact filled

theorem own_blocksFrom {index : Nat} {entries : List Entry}
    (branches : ∀ entry ∈ entries, entry.IsGroup) :
    ∀ source members, (source, members) ∈ document.blocksFrom index entries →
      members ≠ [] ∧ ∀ edge ∈ members, edge.source = source := by
  induction entries generalizing index with
  | nil => exact fun source members member => absurd member List.not_mem_nil
  | cons entry rest ih =>
      intro source members member
      rcases List.mem_cons.mp member with here | further
      · obtain ⟨rfl, rfl⟩ := Prod.mk.inj here
        obtain ⟨name, condition, paths, rfl, filled⟩ := branches entry List.mem_cons_self
        exact ⟨edgesOf_ne_nil filled, fun edge inside => source_of_edgesOf inside⟩
      · exact ih (fun other inside => branches other (List.mem_cons_of_mem _ inside)) _ _ further

theorem groupEntry_block {index : Nat} {source condition : Text} {paths : List Text}
    (filled : paths ≠ [])
    (known : ∀ name ∈ names (.branch source condition paths), document.Knows name) :
    (document.graphWith labels groups).groupEntry (document.resolve source,
      document.edgesOf index (.branch source condition paths)) = .branch source condition paths := by
  have left := @specName_resolve document labels groups source (known source List.mem_cons_self)
  have spelled := @spell_edgesOf document labels groups index (.branch source condition paths) known
  have targets : (document.edgesOf index (.branch source condition paths)).map
      (fun edge => (document.graphWith labels groups).specName edge.target) = paths := by
    have seconds := congrArg (List.map fun spelled => spelled.2.1) spelled
    rw [Entry.spelled, List.map_map, List.map_map] at seconds
    have identity : paths.map ((fun spelled : Text × Text × Option Text => spelled.2.1) ∘
        fun path => (source, path, some condition)) = paths := List.map_id paths
    rw [identity] at seconds
    exact seconds
  obtain ⟨edge, rest, here⟩ := List.exists_cons_of_ne_nil
    (@edgesOf_ne_nil document index source condition paths filled)
  have own : edge.condition = some condition := by
    have member : edge ∈ document.edgesOf index (.branch source condition paths) := by
      rw [here]
      exact List.mem_cons_self
    exact condition_of_edgesOf member
  have found : (document.edgesOf index (.branch source condition paths)).findSome? Edge.condition =
      some condition := by
    rw [here, List.findSome?_cons, own]
  rw [Graph.groupEntry, targets, left, found, Option.getD_some]

theorem groupEntry_blocksFrom {index : Nat} {entries : List Entry}
    (branches : ∀ entry ∈ entries, entry.IsGroup)
    (known : ∀ name ∈ entries.flatMap names, document.Knows name) :
    (document.blocksFrom index entries).map (document.graphWith labels groups).groupEntry =
      entries := by
  induction entries generalizing index with
  | nil => rfl
  | cons entry rest ih =>
      obtain ⟨source, condition, paths, rfl, filled⟩ := branches entry List.mem_cons_self
      rw [blocksFrom, List.map_cons, Entry.source, groupEntry_block filled, ih]
      · exact fun other inside => branches other (List.mem_cons_of_mem _ inside)
      · exact fun name member => known name (List.mem_append_right _ member)
      · exact fun name member => known name (List.mem_append_left _ member)

/-- The groups of a graph rebuilt from branch entries of different sources are these entries. -/
theorem groups_of_entries {index : Nat} {entries : List Entry}
    (branches : ∀ entry ∈ entries, entry.IsGroup)
    (distinct : (entries.map fun entry => document.resolve entry.source).Nodup) :
    (document.edgesFrom index entries).foldl Graph.gather [] = document.blocksFrom index entries := by
  rw [← flatMap_blocksFrom, Graph.foldl_gather_blocks]
  · rfl
  · rw [List.nil_append, keys_blocksFrom]
    exact distinct
  · exact own_blocksFrom branches

end Spec.Document

namespace Graph

variable {graph : Graph} {config : Spec.Config} {entry terminal : Node} {owner : Text → Text}

theorem direct_of_directEntries {entries : List Spec.Entry}
    (same : entries = (graph.directEdges entry.id terminal.id).map graph.directEntry) :
    ∀ direct ∈ entries, direct.IsDirect := by
  intro direct member
  rw [same] at member
  obtain ⟨edge, _, rfl⟩ := List.mem_map.mp member
  exact ⟨_, _, rfl⟩

theorem branch_of_groupEntries {entries : List Spec.Entry}
    (same : entries = graph.groups.map graph.groupEntry) :
    ∀ branch ∈ entries, branch.IsGroup := by
  intro branch member
  rw [same] at member
  obtain ⟨⟨source, members⟩, group, rfl⟩ := List.mem_map.mp member
  obtain ⟨filled, _⟩ := group_of_mem group
  refine ⟨_, _, _, rfl, ?_⟩
  rw [ne_eq, List.map_eq_nil_iff]
  exact filled

theorem distinct_groupEntries (writable : graph.Writable entry terminal owner) :
    ((graph.groups.map graph.groupEntry).map fun branch =>
      (graph.written config entry terminal).resolve branch.source).Nodup := by
  have sources : (graph.groups.map graph.groupEntry).map (fun branch =>
      (graph.written config entry terminal).resolve branch.source) =
        graph.groups.keys.map fun id =>
          (graph.written config entry terminal).resolve (graph.specName id) := by
    rw [Table.keys, List.map_map, List.map_map]
    rfl
  rw [sources]
  apply List.Nodup.map_on _ (gathered_groups graph).distinct
  intro first left second right same
  have touched {id : Text} (inside : id ∈ graph.groups.keys) :
      ∃ edge ∈ graph.edges, edge.source = id := by
    obtain ⟨⟨source, members⟩, group, rfl⟩ := List.mem_map.mp inside
    obtain ⟨filled, own⟩ := group_of_mem group
    obtain ⟨edge, rest, rfl⟩ := List.exists_cons_of_ne_nil filled
    obtain ⟨known, source, _⟩ := own edge List.mem_cons_self
    exact ⟨edge, known, source⟩
  obtain ⟨edge, known, here⟩ := touched left
  obtain ⟨other, otherKnown, there⟩ := touched right
  exact resolve_specName writable known otherKnown (.inl here) (.inl there) same

theorem not_reserved_of_step {document : Spec.Document} {labels : Table Text} {groups : Int}
    {name : Text} {node : Node}
    (found : (document.graphWith labels groups).node? (document.resolve name) = some node)
    (step : node.isStep = true) : name ≠ Spec.startName ∧ name ≠ Spec.endName := by
  have distinct := Spec.Document.nodup_nodeIds document labels groups
  constructor
  · intro equal
    subst equal
    have own := @node?_of_mem (document.graphWith labels groups) distinct .entry List.mem_cons_self
    obtain rfl := Option.some.inj (own.symm.trans found)
    exact absurd step (by decide)
  · intro equal
    subst equal
    have own := @node?_of_mem (document.graphWith labels groups) distinct .terminal
      (List.mem_cons_of_mem _ List.mem_cons_self)
    obtain rfl := Option.some.inj (own.symm.trans found)
    exact absurd step (by decide)

theorem ownsLabel_resolve (writable : graph.Writable entry terminal owner) {labels : Table Text}
    {groups : Int} {name : Text}
    (named : name ∈ (graph.written config entry terminal).edges.flatMap Spec.Document.names) :
    ((graph.written config entry terminal).graphWith labels groups).OwnsLabel
      (graph.written config entry terminal).resolve
      ((graph.written config entry terminal).resolve name) := by
  intro node found step
  have label : node.label = name := by
    have same := @Spec.Document.specName_resolve _ labels groups name
      (knows_written writable name named)
    rw [specName_of_node? found, Node.specName, beq_iff_eq.mp step] at same
    exact same
  obtain ⟨notStart, notEnd⟩ := not_reserved_of_step found step
  have filled : name ≠ "" := by
    rw [names_written] at named
    obtain ⟨id, member, rfl⟩ := List.mem_map.mp named
    obtain ⟨edge, inside, touched⟩ := mem_visited.mp member
    obtain ⟨known, owns⟩ := writable.touched_owned inside touched
    exact specName_ne_empty known owns
  rw [label]
  exact ⟨filled, notStart, notEnd, (node?_eq_some found).2.symm⟩

theorem writable_rebuilt (writable : graph.Writable entry terminal owner) {labels : Table Text}
    (read : (graph.written config entry terminal).conditions = .ok labels) (groups : Int) :
    ((graph.written config entry terminal).graphWith labels groups).Writable .entry .terminal
      (graph.written config entry terminal).resolve := by
  have coherent := Spec.Document.coherent_graphWith read groups
  obtain ⟨entries, terminals, _⟩ :=
    Spec.Document.ofKind_graphWith (graph.written config entry terminal) labels groups
  obtain ⟨label, _, conditions⟩ := Spec.Document.conditionsFrom_eq_ok_iff.mp ⟨labels, read⟩
  refine ⟨⟨entries, terminals, coherent.source, coherent.target, label, ?_⟩, ?_⟩
  · intro edge member condition branch
    obtain ⟨source, paths, inside, same⟩ := Spec.Document.branch_of_edgesFrom member branch
    rw [same]
    exact conditions source condition paths inside
  · intro edge member
    obtain ⟨source, left, target, right, sources, targets⟩ :=
      Spec.Document.ends_of_edgesFrom member
    rw [sources, targets]
    exact ⟨ownsLabel_resolve writable left, ownsLabel_resolve writable right⟩

/-- The entries of a rebuilt graph are those it was rebuilt from. -/
theorem edges_rewritten {document : Spec.Document} {direct branches : List Spec.Entry}
    (entries : document.edges = direct ++ branches)
    (directs : ∀ entry ∈ direct, entry.IsDirect) (groupings : ∀ entry ∈ branches, entry.IsGroup)
    (knows : ∀ name ∈ document.edges.flatMap Spec.Document.names, document.Knows name)
    (distinct : (branches.map fun entry => document.resolve entry.source).Nodup)
    (arranged : Spec.Entry.arrange direct = direct) {labels : Table Text} {groups : Int}
    (writable : (document.graphWith labels groups).Writable .entry .terminal owner) :
    ((document.graphWith labels groups).written config .entry .terminal).edges = document.edges := by
  rw [entries, List.flatMap_append] at knows
  have edges : (document.graphWith labels groups).edges =
      document.edgesFrom 0 direct ++ document.edgesFrom direct.length branches := by
    have split := Spec.Document.edgesFrom_append document 0 direct branches
    rw [Nat.zero_add, ← entries] at split
    exact split
  have plain {edge : Edge} (member : edge ∈ document.edgesFrom 0 direct) : edge.isBranch = false := by
    obtain ⟨place, entry, inside, found⟩ := Spec.Document.mem_edgesFrom member
    obtain ⟨source, target, rfl⟩ := directs entry inside
    rw [Edge.isBranch, Spec.Document.condition_of_edgesOf found]
    rfl
  have grouped {edge : Edge} (member : edge ∈ document.edgesFrom direct.length branches) :
      edge.isBranch = true := by
    obtain ⟨place, entry, inside, found⟩ := Spec.Document.mem_edgesFrom member
    obtain ⟨source, condition, paths, rfl, _⟩ := groupings entry inside
    rw [Edge.isBranch, Spec.Document.condition_of_edgesOf found]
    rfl
  have directEdges : (document.graphWith labels groups).edges.filter (!·.isBranch) =
      document.edgesFrom 0 direct := by
    rw [edges, List.filter_append,
      List.filter_eq_self.mpr fun edge member => by rw [plain member]; rfl,
      List.filter_eq_nil_iff.mpr fun edge member => by rw [grouped member]; decide,
      List.append_nil]
  have branchEdges : (document.graphWith labels groups).edges.filter Edge.isBranch =
      document.edgesFrom direct.length branches := by
    rw [edges, List.filter_append,
      List.filter_eq_nil_iff.mpr fun edge member => by rw [plain member]; decide,
      List.filter_eq_self.mpr fun edge member => grouped member, List.nil_append]
  have first : ((document.graphWith labels groups).directEdges Node.entry.id Node.terminal.id).map
      (document.graphWith labels groups).directEntry = direct := by
    calc
      _ = Spec.Entry.arrange ((document.edgesFrom 0 direct).map
            (document.graphWith labels groups).directEntry) := by
          rw [directEntries_eq writable (Spec.Document.nodup_nodeIds document labels groups),
            directEdges]
      _ = Spec.Entry.arrange direct := by
          rw [Spec.Document.directEntry_edgesFrom directs fun name member =>
            knows name (List.mem_append_left _ member)]
      _ = direct := arranged
  have second : (document.graphWith labels groups).groups.map
      (document.graphWith labels groups).groupEntry = branches := by
    calc
      _ = (document.blocksFrom direct.length branches).map
            (document.graphWith labels groups).groupEntry := by
          rw [groups_eq, branchEdges, Spec.Document.groups_of_entries groupings distinct]
      _ = branches := Spec.Document.groupEntry_blocksFrom groupings fun name member =>
          knows name (List.mem_append_right _ member)
  rw [written, first, second, entries]

/-- A graph of distinct ids that was written and rebuilt is written in the same way again. -/
theorem rewritten_eq (writable : graph.Writable entry terminal owner)
    (distinct : graph.nodeIds.Nodup) {labels : Table Text}
    (read : (graph.written config entry terminal).conditions = .ok labels) (groups : Int) :
    ((graph.written config entry terminal).graphWith labels groups).written config .entry .terminal =
      graph.written config entry terminal := by
  have again := writable_rebuilt writable read groups
  have edges : (((graph.written config entry terminal).graphWith labels groups).written config
      .entry .terminal).edges = (graph.written config entry terminal).edges := by
    apply edges_rewritten rfl (direct_of_directEntries rfl) (branch_of_groupEntries rfl)
      (knows_written writable) (distinct_groupEntries writable) _ again
    rw [directEntries_eq writable distinct, Spec.Entry.arrange_arrange]
  have nodes : (((graph.written config entry terminal).graphWith labels groups).written config
      .entry .terminal).nodes = (graph.written config entry terminal).nodes := by
    rw [nodes_written again, edges, ← nodes_written writable]
  exact Spec.Document.ext rfl nodes edges

theorem toDocument_rebuilt {document : Spec.Document} (made : graph.toDocument config = .ok document)
    (distinct : graph.nodeIds.Nodup)
    (countable : ∀ edge ∈ graph.edges, ∀ condition ∈ edge.condition,
      Spec.Document.IsCountable condition) :
    ∃ decoded, document.toGraph = .ok decoded ∧ decoded.graph.toDocument config = .ok document := by
  obtain ⟨entry, terminal, owner, writable, rfl⟩ := toDocument_eq_ok_iff.mp made
  obtain ⟨labels, groups, read, rebuilt⟩ := @toGraph_written graph config _ _ _ writable countable
  have again := writable_rebuilt writable read groups
  have same := (rewritten_eq writable distinct read groups).symm
  exact ⟨_, rebuilt, toDocument_eq_ok_iff.mpr ⟨.entry, .terminal, _, again, same⟩⟩

theorem countable_rebuilt {document : Spec.Document} {decoded : Decoded}
    (rebuilt : document.toGraph = .ok decoded) :
    ∀ edge ∈ decoded.graph.edges, ∀ condition ∈ edge.condition,
      Spec.Document.IsCountable condition := by
  obtain ⟨labels, groups, read, counted, same⟩ := Spec.Document.parts_of_toGraph rebuilt
  intro edge member condition branch
  rw [same] at member
  obtain ⟨source, paths, inside, _⟩ := Spec.Document.branch_of_edgesFrom member branch
  have known := (Spec.Document.mem_conditionsFrom read).mpr (.inr ⟨source, paths, inside⟩)
  exact Spec.Document.greatestGeneric_eq_ok_iff.mp ⟨groups, counted⟩ condition known

/-- What is written of a graph of distinct ids is a normal form, be the graph edited or rebuilt from
a specification by hand. -/
theorem written_normal (config : Spec.Config) :
    (∀ (graph : Graph) document, graph.toDocument config = .ok document → graph.nodeIds.Nodup →
      (∀ edge ∈ graph.edges, ∀ condition ∈ edge.condition,
        Spec.Document.IsCountable condition) →
      ∃ decoded, document.toGraph = .ok decoded ∧
        decoded.graph.toDocument config = .ok document) ∧
    ∀ (given : Spec.Document) read document, given.toGraph = .ok read →
      read.graph.toDocument config = .ok document →
      ∃ decoded, document.toGraph = .ok decoded ∧
        decoded.graph.toDocument config = .ok document := by
  refine ⟨fun graph document made distinct countable =>
    toDocument_rebuilt made distinct countable, ?_⟩
  intro given read document rebuilt made
  apply toDocument_rebuilt made _ (countable_rebuilt rebuilt)
  obtain ⟨labels, groups, _, _, same⟩ := Spec.Document.parts_of_toGraph rebuilt
  rw [same]
  exact Spec.Document.nodup_nodeIds given labels groups

theorem written_normal_crossing :
    ∃ document decoded, crossing.toDocument .standard = .ok document ∧ crossing.nodeIds.Nodup ∧
      (∀ edge ∈ crossing.edges, ∀ condition ∈ edge.condition,
        Spec.Document.IsCountable condition) ∧
      document.toGraph = .ok decoded ∧ decoded.graph.toDocument .standard = .ok document ∧
      ∃ again, document.toGraph = .ok again ∧
        again.graph.toDocument .standard = .ok document := by
  have made : crossing.toDocument .standard = .ok ⟨.standard, ["Plan", "Act"],
      [.direct "__start__" "Plan", .direct "Act" "__end__", .direct "Act" "__end__",
        .direct "Plan" "Plan", .branch "Plan" "conditional_edge_12" ["Act", "__end__"]]⟩ := by rfl
  have distinct : crossing.nodeIds.Nodup := by decide +kernel
  have countable : ∀ edge ∈ crossing.edges, ∀ condition ∈ edge.condition,
      Spec.Document.IsCountable condition := by decide +kernel
  obtain ⟨decoded, rebuilt, same⟩ :=
    (written_normal .standard).1 crossing _ made distinct countable
  have again := (written_normal .standard).2 _ decoded _ rebuilt same
  exact ⟨_, decoded, made, distinct, countable, rebuilt, same, again⟩

end Graph

end Workflow
