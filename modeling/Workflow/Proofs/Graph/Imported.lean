import Mathlib.Data.List.Induction
import Workflow.Proofs.Graph.Editing
import Workflow.Proofs.Graph.Refusal

/-! The graph of a compiled workflow holds its nodes and links one by one. The branches that leave one
node stand under the first router of the source from which the first of them was made, or else under a
generic label: that of the k-th such node is the k-th one. -/

namespace Workflow

namespace Compiled

variable {compiled : Compiled} {links : List Link} {link : Link} {name id source : Text}
  {start graph : Graph}

/-- The nodes that become steps: all but the two reserved ones. -/
def workNodes (compiled : Compiled) : List Step :=
  compiled.nodes.filter fun node => node.id != Spec.startName && node.id != Spec.endName

theorem stepNodes_eq (distinct : (compiled.nodes.map Step.id).Nodup) :
    compiled.stepNodes = compiled.workNodes := by
  have known : Table.keys (compiled.nodes.map fun node => (node.id, node)) =
      compiled.nodes.map Step.id := by
    rw [Table.keys, List.map_map]
    rfl
  have same : compiled.distinctNodes = compiled.nodes := by
    rw [distinctNodes, Table.ofEntries_of_nodup (by rwa [known]), List.map_map]
    exact List.map_id _
  rw [stepNodes, same, workNodes]

/-- Where a name leads; one that no node bears leads to the terminal. -/
inductive Leads (compiled : Compiled) : Text → Text → Prop where
  | start : compiled.Leads Spec.startName Node.entry.id
  | stop : compiled.Leads Spec.endName Node.terminal.id
  | step {index : Nat} {node : Step} (found : compiled.workNodes[index]? = some node) :
    compiled.Leads node.id (stepId (index + 1))
  | unknown {name : Text} (notStart : name ≠ Spec.startName) (notEnd : name ≠ Spec.endName)
    (absent : ∀ node ∈ compiled.nodes, node.id ≠ name) : compiled.Leads name Node.terminal.id

theorem mem_workNodes {node : Step} : node ∈ compiled.workNodes ↔
    node ∈ compiled.nodes ∧ node.id ≠ Spec.startName ∧ node.id ≠ Spec.endName := by
  simp [workNodes]

theorem idOf_of_leads (distinct : (compiled.nodes.map Step.id).Nodup)
    (leads : compiled.Leads name id) : compiled.idOf name = id := by
  cases leads with
  | start => rfl
  | stop => rfl
  | unknown notStart notEnd absent =>
      have none : compiled.workNodes.findIdx? (·.id == name) = none := by
        rw [List.findIdx?_eq_none_iff]
        intro node member
        exact beq_false_of_ne (absent node (mem_workNodes.mp member).1)
      rw [idOf, if_neg notStart, if_neg notEnd, stepNodes_eq distinct, none]
  | @step index node found =>
      obtain ⟨inside, here⟩ := List.getElem?_eq_some_iff.mp found
      obtain ⟨_, notStart, notEnd⟩ := mem_workNodes.mp (List.mem_of_getElem? found)
      have apart : (compiled.workNodes.map Step.id).Nodup :=
        distinct.sublist (List.filter_sublist.map Step.id)
      have first : compiled.workNodes.findIdx? (·.id == node.id) = some index := by
        rw [List.findIdx?_eq_some_iff_getElem]
        refine ⟨inside, by rw [here]; exact beq_self_eq_true node.id, ?_⟩
        intro earlier before same
        have bound := Nat.lt_trans before inside
        have equal : (compiled.workNodes.map Step.id)[earlier]? =
            (compiled.workNodes.map Step.id)[index]? := by
          rw [List.getElem?_map, List.getElem?_map, found, List.getElem?_eq_getElem bound,
            Option.map_some, Option.map_some, beq_iff_eq.mp same]
        exact absurd ((List.getElem?_inj (by simpa using bound) apart).mp equal) (Nat.ne_of_lt before)
      rw [idOf, if_neg notStart, if_neg notEnd, stepNodes_eq distinct, first]

theorem exists_leads (compiled : Compiled) (name : Text) : ∃ id, compiled.Leads name id := by
  by_cases start : name = Spec.startName
  · rw [start]
    exact ⟨_, .start⟩
  · by_cases stop : name = Spec.endName
    · rw [stop]
      exact ⟨_, .stop⟩
    · by_cases known : ∃ node ∈ compiled.nodes, node.id = name
      · obtain ⟨node, member, rfl⟩ := known
        obtain ⟨index, found⟩ := List.mem_iff_getElem?.mp (mem_workNodes.mpr ⟨member, start, stop⟩)
        exact ⟨_, .step found⟩
      · exact ⟨_, .unknown start stop fun node member same => known ⟨node, member, same⟩⟩

theorem leads_iff (distinct : (compiled.nodes.map Step.id).Nodup) :
    compiled.Leads name id ↔ compiled.idOf name = id := by
  refine ⟨idOf_of_leads distinct, ?_⟩
  rintro rfl
  obtain ⟨other, leads⟩ := exists_leads compiled name
  rw [idOf_of_leads distinct leads]
  exact leads

theorem map_face_steps {index : Nat} {nodes : List Step} {positions : List Position}
    {made : List Node} (enough : nodes.length ≤ positions.length)
    (read : steps index (nodes.zip positions) = .ok made) :
    made.map (fun step => (step.kind, step.id, Json.text step.label)) =
      (nodes.zipIdx index).map fun (node, place) => (Kind.step, stepId (place + 1), node.label) := by
  induction nodes generalizing index positions made with
  | nil =>
      obtain rfl := Except.ok.inj read
      rfl
  | cons node rest ih =>
      cases positions with
      | nil => simp at enough
      | cons position positions =>
          rw [List.zip_cons_cons, steps] at read
          split at read
          · rename_i label text
            cases further : steps (index + 1) (rest.zip positions) with
            | error issues => simp [further, Except.map] at read
            | ok others =>
                rw [further] at read
                obtain rfl := Except.ok.inj read
                rw [List.map_cons, ih (by simpa using enough) further, List.zipIdx_cons, List.map_cons]
                dsimp only
                rw [text]
                rfl
          · exact absurd read (by simp)

/-- The nodes that conditional links leave, each once, in the order of their first links. -/
def groupSources (compiled : Compiled) (links : List Link) : List Text :=
  ((links.filter Link.conditional).map fun link => compiled.idOf link.source).eraseDups

/-- The first router registered for the source of the first conditional link that leaves a node. -/
def routerOf (compiled : Compiled) (links : List Link) (source : Text) : Option Text :=
  (links.find? fun link => link.conditional && compiled.idOf link.source == source).bind fun link =>
    (compiled.routers.get? link.source).bind List.head?

/-- The nodes whose groups have no router to be named for. -/
def unrouted (compiled : Compiled) (links : List Link) : List Text :=
  (compiled.groupSources links).filter fun source => (compiled.routerOf links source).isNone

/-- The label of a group; without a router it is generic, with the place of its node as the number. -/
def labelOf (compiled : Compiled) (links : List Link) (source : Text) : Text :=
  (compiled.routerOf links source).getD
    (genericLabel ((compiled.unrouted links).idxOf source + 1 : Nat))

def conditionOf (compiled : Compiled) (links : List Link) (link : Link) : Option Text :=
  if link.conditional then some (compiled.labelOf links (compiled.idOf link.source)) else none

def edgesOf (compiled : Compiled) (links : List Link) : List Edge :=
  links.zipIdx.map fun (link, index) =>
    ⟨edgeId (index + 1 : Nat), compiled.idOf link.source, compiled.idOf link.target,
      compiled.conditionOf links link⟩

def labelsOf (compiled : Compiled) (links : List Link) : Table Text :=
  (compiled.groupSources links).map fun source => (source, compiled.labelOf links source)

/-- A graph with the edges that links stand for, and the labels of their groups. -/
def linked (compiled : Compiled) (start : Graph) (links : List Link) : Graph :=
  { start with
    edges := compiled.edgesOf links
    conditionLabels := compiled.labelsOf links
    groupCount := (compiled.unrouted links).length
    edgeCount := links.length }

theorem mem_groupSources : source ∈ compiled.groupSources links ↔
    ∃ link ∈ links, link.conditional = true ∧ compiled.idOf link.source = source := by
  simp [groupSources, and_assoc]

theorem mem_unrouted : source ∈ compiled.unrouted links ↔
    source ∈ compiled.groupSources links ∧ compiled.routerOf links source = none := by
  rw [unrouted, List.mem_filter, Option.isNone_iff_eq_none]

theorem groupSources_known
    (known : link.conditional = true → compiled.idOf link.source ∈ compiled.groupSources links) :
    compiled.groupSources (links ++ [link]) = compiled.groupSources links := by
  cases branch : link.conditional with
  | false => simp [groupSources, List.filter_append, branch]
  | true =>
      have member := List.mem_eraseDups.mp (known branch)
      rw [groupSources, List.filter_append, List.map_append, List.eraseDups_append]
      simp [branch, List.removeAll, member, groupSources]

theorem groupSources_new (branch : link.conditional = true)
    (fresh : compiled.idOf link.source ∉ compiled.groupSources links) :
    compiled.groupSources (links ++ [link]) =
      compiled.groupSources links ++ [compiled.idOf link.source] := by
  have absent : compiled.idOf link.source ∉
      (links.filter Link.conditional).map fun link => compiled.idOf link.source :=
    fun member => fresh (List.mem_eraseDups.mpr member)
  rw [groupSources, List.filter_append, List.map_append, List.eraseDups_append,
    List.filter_cons_of_pos branch, List.filter_nil, List.map_singleton, List.removeAll,
    List.filter_cons_of_pos (by simpa using absent), List.filter_nil]
  rfl

theorem routerOf_append (member : source ∈ compiled.groupSources links) (more : List Link) :
    compiled.routerOf (links ++ more) source = compiled.routerOf links source := by
  obtain ⟨link, inside, branch, same⟩ := mem_groupSources.mp member
  cases found : links.find? fun link => link.conditional && compiled.idOf link.source == source with
  | none =>
      have none := List.find?_eq_none.mp found link inside
      simp [branch, same] at none
  | some first => rw [routerOf, List.find?_append, found, Option.some_or, routerOf, found]

theorem routerOf_new (branch : link.conditional = true)
    (fresh : compiled.idOf link.source ∉ compiled.groupSources links) :
    compiled.routerOf (links ++ [link]) (compiled.idOf link.source) =
      (compiled.routers.get? link.source).bind List.head? := by
  have none : (links.find? fun other =>
      other.conditional && compiled.idOf other.source == compiled.idOf link.source) = none := by
    rw [List.find?_eq_none]
    intro other member same
    rw [Bool.and_eq_true, beq_iff_eq] at same
    exact fresh (mem_groupSources.mpr ⟨other, member, same⟩)
  rw [routerOf, List.find?_append, none, Option.none_or, List.find?_cons_of_pos (by simp [branch]),
    Option.bind_some]

theorem filter_unrouted (more : List Link) :
    (compiled.groupSources links).filter
      (fun source => (compiled.routerOf (links ++ more) source).isNone) = compiled.unrouted links :=
  List.filter_congr fun source member => by rw [routerOf_append member]

theorem unrouted_known
    (known : link.conditional = true → compiled.idOf link.source ∈ compiled.groupSources links) :
    compiled.unrouted (links ++ [link]) = compiled.unrouted links := by
  rw [unrouted, groupSources_known known, filter_unrouted]

theorem unrouted_new (branch : link.conditional = true)
    (fresh : compiled.idOf link.source ∉ compiled.groupSources links) :
    compiled.unrouted (links ++ [link]) = compiled.unrouted links ++
      if ((compiled.routers.get? link.source).bind List.head?).isNone then
        [compiled.idOf link.source] else [] := by
  rw [unrouted, groupSources_new branch fresh, List.filter_append, filter_unrouted,
    List.filter_cons, List.filter_nil, routerOf_new branch fresh]

theorem labelOf_append (member : source ∈ compiled.groupSources links) (link : Link) :
    compiled.labelOf (links ++ [link]) source = compiled.labelOf links source := by
  rw [labelOf, labelOf, routerOf_append member]
  cases routed : compiled.routerOf links source with
  | some router => rfl
  | none =>
      have inside := mem_unrouted.mpr ⟨member, routed⟩
      by_cases known : link.conditional = true →
          compiled.idOf link.source ∈ compiled.groupSources links
      · rw [unrouted_known known]
      · obtain ⟨branch, fresh⟩ := Classical.not_imp.mp known
        rw [unrouted_new branch fresh, List.idxOf_append_of_mem inside]

theorem labelOf_new (branch : link.conditional = true)
    (fresh : compiled.idOf link.source ∉ compiled.groupSources links) :
    compiled.labelOf (links ++ [link]) (compiled.idOf link.source) =
      ((compiled.routers.get? link.source).bind List.head?).getD
        (genericLabel ((compiled.unrouted links).length + 1 : Nat)) := by
  rw [labelOf, routerOf_new branch fresh]
  cases routed : (compiled.routers.get? link.source).bind List.head? with
  | some router => rfl
  | none =>
      have outside : compiled.idOf link.source ∉ compiled.unrouted links :=
        fun member => fresh (mem_unrouted.mp member).1
      rw [unrouted_new branch fresh, routed, Option.isNone_none, if_pos rfl,
        List.idxOf_append_of_notMem outside, List.idxOf_cons_self, Nat.add_zero]

theorem labelsOf_known
    (known : link.conditional = true → compiled.idOf link.source ∈ compiled.groupSources links) :
    compiled.labelsOf (links ++ [link]) = compiled.labelsOf links := by
  rw [labelsOf, groupSources_known known]
  exact List.map_congr_left fun source member => by rw [labelOf_append member]

theorem labelsOf_new (branch : link.conditional = true)
    (fresh : compiled.idOf link.source ∉ compiled.groupSources links) :
    compiled.labelsOf (links ++ [link]) = compiled.labelsOf links ++
      [(compiled.idOf link.source, compiled.labelOf (links ++ [link]) (compiled.idOf link.source))] := by
  rw [labelsOf, groupSources_new branch fresh, List.map_append]
  congr 1
  exact List.map_congr_left fun source member => by rw [labelOf_append member]

theorem edgesOf_append (links : List Link) (link : Link) :
    compiled.edgesOf (links ++ [link]) = compiled.edgesOf links ++
      [⟨edgeId (links.length + 1 : Nat), compiled.idOf link.source, compiled.idOf link.target,
        compiled.conditionOf (links ++ [link]) link⟩] := by
  rw [edgesOf, List.zipIdx_append, List.map_append, Nat.zero_add]
  congr 1
  apply List.map_congr_left
  rintro ⟨other, index⟩ inside
  have member : other ∈ links := by
    rw [← List.zipIdx_map_fst 0 links]
    exact List.mem_map_of_mem inside
  have same : compiled.conditionOf (links ++ [link]) other = compiled.conditionOf links other := by
    cases branch : other.conditional with
    | false => simp [conditionOf, branch]
    | true =>
        have source : compiled.idOf other.source ∈ compiled.groupSources links :=
          mem_groupSources.mpr ⟨other, member, branch, rfl⟩
        rw [conditionOf, conditionOf, labelOf_append source]
  dsimp only
  rw [same]

theorem map_id_edgesOf (compiled : Compiled) (links : List Link) :
    (compiled.edgesOf links).map Edge.id =
      (List.range links.length).map fun index : Nat => edgeId (index + 1 : Nat) := by
  rw [edgesOf, List.map_map, List.range_eq_range', ← List.zipIdx_map_snd 0 links, List.map_map]
  rfl

theorem nextEdgeId_linked (compiled : Compiled) (links : List Link)
    (edges : graph.edges = compiled.edgesOf links) (count : graph.edgeCount = links.length) :
    graph.nextEdgeId =
      ({ graph with edgeCount := (links.length + 1 : Nat) }, edgeId (links.length + 1 : Nat)) := by
  have free : edgeId (graph.edgeCount + 1) ∉ graph.edgeIds := by
    rw [Graph.edgeIds, edges, map_id_edgesOf, count]
    intro member
    obtain ⟨index, inside, same⟩ := List.mem_map.mp member
    have bound := List.mem_range.mp inside
    have equal := edgeId_injective same
    omega
  rw [Graph.nextEdgeId, Graph.freshEdgeNumber_of_free free, count]
  rfl

theorem groupLabel_linked (start : Graph) (links : List Link) (branch : link.conditional = true) :
    compiled.groupLabel link.source (compiled.idOf link.source) (compiled.linked start links) =
      ({ compiled.linked start links with
          conditionLabels := compiled.labelsOf (links ++ [link])
          groupCount := (compiled.unrouted (links ++ [link])).length },
        compiled.labelOf (links ++ [link]) (compiled.idOf link.source)) := by
  by_cases known : compiled.idOf link.source ∈ compiled.groupSources links
  · have kept : (compiled.linked start links).conditionLabels.get? (compiled.idOf link.source) =
        some (compiled.labelOf links (compiled.idOf link.source)) :=
      Table.get?_map_of_mem known (compiled.labelOf links)
    rw [groupLabel, kept, labelsOf_known fun _ => known, unrouted_known fun _ => known,
      labelOf_append known]
    rfl
  · have keys : (compiled.labelsOf links).keys = compiled.groupSources links :=
      Table.keys_map _ (compiled.labelOf links)
    have absent : (compiled.linked start links).conditionLabels.get? (compiled.idOf link.source) =
        none := Table.get?_eq_none_iff.mpr (keys ▸ known)
    have put (label : Text) : Table.put (compiled.idOf link.source) label (compiled.labelsOf links) =
        compiled.labelsOf links ++ [(compiled.idOf link.source, label)] :=
      Table.put_of_not_mem (keys ▸ known) label
    rw [groupLabel, absent, labelsOf_new branch known, unrouted_new branch known,
      labelOf_new branch known]
    cases routed : (compiled.routers.get? link.source).bind List.head? with
    | some router => simp [linked, put]
    | none => simp [linked, put]

theorem addNext_linked (graph : Graph) (known : ∀ name, compiled.idOf name ∈ start.nodeIds)
    (links : List Link) (link : Link) (condition : Option Text) (nodes : graph.nodes = start.nodes)
    (edges : graph.edges = compiled.edgesOf links) (count : graph.edgeCount = links.length) :
    (graph.nextEdgeId.1.addEdge
        ⟨graph.nextEdgeId.2, compiled.idOf link.source, compiled.idOf link.target, condition⟩).1 =
      { graph with
        edges := compiled.edgesOf links ++
          [⟨edgeId (links.length + 1 : Nat), compiled.idOf link.source, compiled.idOf link.target,
            condition⟩]
        edgeCount := (links.length + 1 : Nat) } := by
  have ends (name : Text) :
      ({ graph with edgeCount := (links.length + 1 : Nat) } : Graph).hasNode (compiled.idOf name) =
        true := by
    rw [Graph.hasNode_iff, Graph.nodeIds, nodes]
    exact known name
  rw [nextEdgeId_linked compiled links edges count, Graph.addEdge_of_known (ends _) (ends _), edges]

theorem linked_append (start : Graph) (links : List Link) (link : Link) :
    compiled.linked start (links ++ [link]) =
      { start with
        edges := compiled.edgesOf links ++
          [⟨edgeId (links.length + 1 : Nat), compiled.idOf link.source, compiled.idOf link.target,
            compiled.conditionOf (links ++ [link]) link⟩]
        conditionLabels := compiled.labelsOf (links ++ [link])
        groupCount := (compiled.unrouted (links ++ [link])).length
        edgeCount := (links.length + 1 : Nat) } := by
  rw [linked, edgesOf_append, List.length_append, List.length_singleton]

/-- The step of the loop over links. -/
theorem addLink_linked (known : ∀ name, compiled.idOf name ∈ start.nodeIds) (links : List Link)
    (link : Link) :
    compiled.addLink (compiled.linked start links) link = compiled.linked start (links ++ [link]) := by
  rw [addLink, linked_append, conditionOf]
  cases branch : link.conditional with
  | false =>
      have other : link.conditional = true →
          compiled.idOf link.source ∈ compiled.groupSources links := by simp [branch]
      simp only [Bool.false_eq_true, ↓reduceIte]
      rw [addNext_linked (compiled.linked start links) known links link none rfl rfl rfl,
        labelsOf_known other, unrouted_known other]
      rfl
  | true =>
      simp only [↓reduceIte, groupLabel_linked start links branch]
      exact addNext_linked _ known links link _ rfl rfl rfl

theorem foldl_addLink (known : ∀ name, compiled.idOf name ∈ start.nodeIds)
    (bare : compiled.linked start [] = start) (links : List Link) :
    links.foldl compiled.addLink start = compiled.linked start links := by
  induction links using List.reverseRecOn with
  | nil => exact bare.symm
  | append_singleton links link ih =>
      rw [List.foldl_append, ih, List.foldl_cons, List.foldl_nil, addLink_linked known]

/-- An edge stands for a link: its ends are those to which the names lead, and it is a branch just if
the link is conditional. -/
def Answers (compiled : Compiled) (link : Link) (edge : Edge) : Prop :=
  compiled.Leads link.source edge.source ∧ compiled.Leads link.target edge.target ∧
    edge.isBranch = link.conditional

/-- What was imported holds what the compiled workflow says, and nothing else. -/
structure Describes (compiled : Compiled) (graph : Graph) : Prop where
  nodes : graph.nodes.map (fun node => (node.kind, node.id, Json.text node.label)) =
    (.entry, ("source" : Text), .text "source") :: (.terminal, ("end" : Text), .text "end") ::
      compiled.workNodes.zipIdx.map fun (node, place) => (.step, stepId (place + 1), node.label)
  edges : List.Forall₂ compiled.Answers compiled.links graph.edges
  /-- All branches of a node carry the label that is kept for it. -/
  branches : ∀ edge ∈ graph.edges, ∀ condition, edge.condition = some condition →
    graph.conditionLabels.get? edge.source = some condition
  /-- Labels are kept for the nodes that conditional links leave, in their order. -/
  labels : graph.conditionLabels = compiled.labelsOf compiled.links
  groupCount : graph.groupCount = (compiled.unrouted compiled.links).length
  nodeCount : graph.nodeCount = compiled.workNodes.length
  edgeCount : graph.edgeCount = compiled.links.length

theorem toGraph_eq_linked (found : compiled.toGraph = .ok graph) :
    ∃ made, steps 0 (compiled.stepNodes.zip (Layout.positions compiled.stepNodes.length)) = .ok made ∧
      graph = compiled.linked
        { Graph.empty with nodes := .entry :: .terminal :: made, nodeCount := made.length }
        compiled.links := by
  rw [toGraph] at found
  simp only at found
  cases read : steps 0 (compiled.stepNodes.zip (Layout.positions compiled.stepNodes.length)) with
  | error issues => simp [read, Except.map] at found
  | ok made =>
      rw [read] at found
      obtain rfl := Except.ok.inj found
      exact ⟨made, rfl, foldl_addLink (idOf_made read).2 rfl compiled.links⟩

theorem isBranch_edgesOf {edge : Edge} {condition : Text} (member : edge ∈ compiled.edgesOf links)
    (branch : edge.condition = some condition) :
    edge.source ∈ compiled.groupSources links ∧ condition = compiled.labelOf links edge.source := by
  obtain ⟨⟨link, index⟩, inside, rfl⟩ := List.mem_map.mp member
  have known : link ∈ links := by
    rw [← List.zipIdx_map_fst 0 links]
    exact List.mem_map_of_mem inside
  simp only [conditionOf] at branch
  split at branch
  · rename_i conditional
    exact ⟨mem_groupSources.mpr ⟨link, known, conditional, rfl⟩, (Option.some.inj branch).symm⟩
  · cases branch

theorem agreed_linked (compiled : Compiled) (start : Graph) (links : List Link) (source : Text) :
    (compiled.linked start links).Agreed source := by
  intro edge member condition branch
  obtain ⟨inside, rfl⟩ := Graph.mem_outgoing.mp member
  obtain ⟨grouped, rfl⟩ := isBranch_edgesOf inside branch
  exact Table.get?_map_of_mem grouped (compiled.labelOf links)

theorem answers_edgesOf (distinct : (compiled.nodes.map Step.id).Nodup) (links : List Link) :
    List.Forall₂ compiled.Answers links (compiled.edgesOf links) := by
  have answered (links more : List Link) (index : Nat) :
      List.Forall₂ compiled.Answers more ((more.zipIdx index).map fun (link, index) =>
        ⟨edgeId (index + 1 : Nat), compiled.idOf link.source, compiled.idOf link.target,
          compiled.conditionOf links link⟩) := by
    induction more generalizing index with
    | nil => exact .nil
    | cons link rest ih =>
        refine .cons ⟨(leads_iff distinct).mpr rfl, (leads_iff distinct).mpr rfl, ?_⟩ (ih (index + 1))
        cases branch : link.conditional with
        | false => simp [Edge.isBranch, conditionOf, branch]
        | true => simp [Edge.isBranch, conditionOf, branch]
  exact answered links links 0

/-- An imported graph describes the compiled workflow, part by part; and it is refused, if at all, only
for the labels of steps that edges touch. -/
theorem describes_imported (distinct : (compiled.nodes.map Step.id).Nodup)
    (found : compiled.toGraph = .ok graph) :
    compiled.Describes graph ∧ ∀ config violation,
      graph.toDocument config = .error violation → violation.IsLabelError graph := by
  have coherent := coherent_toGraph found
  obtain ⟨made, read, rfl⟩ := toGraph_eq_linked found
  have agreed := agreed_linked compiled
    { Graph.empty with nodes := .entry :: .terminal :: made, nodeCount := made.length } compiled.links
  have faces := map_face_steps (Nat.le_of_eq (Layout.length_positions _).symm) read
  rw [stepNodes_eq distinct] at faces
  constructor
  · constructor
    case nodes =>
      rw [← faces]
      rfl
    case edges => exact answers_edgesOf distinct compiled.links
    case branches =>
      intro edge member condition branch
      exact agreed edge.source edge (Graph.mem_outgoing.mpr ⟨member, rfl⟩) condition branch
    case labels => rfl
    case groupCount => rfl
    case nodeCount =>
      have length := congrArg List.length faces
      rw [List.length_map, List.length_map, List.length_zipIdx] at length
      exact congrArg Int.ofNat length
    case edgeCount => rfl
  · intro config violation refused
    obtain ⟨entry, terminal, shaped⟩ := Graph.shaped_of_agreed coherent agreed
    exact Graph.labelError_of_refused shaped refused

/-- Two sources that no node bears, whose branches are gathered at the terminal, a router that comes too
late for its group, and two steps with one label. -/
def collapsing : Compiled where
  nodes := [⟨"__start__", none, none⟩, ⟨"plan", some (.text "same"), some (.object [])⟩,
    ⟨"find", none, some (.object [("label", .text "same")])⟩, ⟨"__end__", none, none⟩]
  links := [⟨"ghost", "plan", true⟩, ⟨"plan", "nowhere", false⟩, ⟨"plan", "find", true⟩,
    ⟨"phantom", "find", true⟩, ⟨"find", "find", true⟩, ⟨"plan", "__start__", true⟩]
  branches := some [("plan", some ["route", "other"]), ("phantom", some ["late"]), ("find", none)]

def collapsed : Graph where
  nodes := [.entry, .terminal, .step "step-1" "same" (Layout.place 3 0),
    .step "step-2" "same" (Layout.place 3 1)]
  edges := [.branch "edge-1" "end" "step-1" "conditional_edge_1", .direct "edge-2" "step-1" "end",
    .branch "edge-3" "step-1" "step-2" "route", .branch "edge-4" "end" "step-2" "conditional_edge_1",
    .branch "edge-5" "step-2" "step-2" "conditional_edge_2",
    .branch "edge-6" "step-1" "source" "route"]
  conditionLabels := [("end", "conditional_edge_1"), ("step-1", "route"),
    ("step-2", "conditional_edge_2")]
  groupCount := 2
  nodeCount := 2
  edgeCount := 6

theorem describes_imported_collapsing :
    (collapsing.nodes.map Step.id).Nodup ∧ collapsing.toGraph = .ok collapsed ∧
      collapsing.Describes collapsed ∧
      collapsed.toDocument .standard = .error (.sharedLabel "step-1" "step-2" "same") ∧
      ("step-1" : Text) ≠ "step-2" ∧ collapsed.TouchesStep "step-1" "same" ∧
      collapsed.TouchesStep "step-2" "same" := by
  have distinct : (collapsing.nodes.map Step.id).Nodup := by decide
  have found : collapsing.toGraph = .ok collapsed := by decide +kernel
  have refused : collapsed.toDocument .standard = .error (.sharedLabel "step-1" "step-2" "same") := by
    decide +kernel
  obtain ⟨describes, refusals⟩ := describes_imported distinct found
  exact ⟨distinct, found, describes, refused, refusals .standard _ refused⟩

end Compiled

end Workflow
