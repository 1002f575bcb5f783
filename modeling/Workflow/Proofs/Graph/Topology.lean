import Mathlib.Data.Set.Function
import Workflow.Proofs.Graph.RoundTrip

/-! What a text depends on: the ends and the conditions of the edges, class by class, with the kinds
of the nodes at their ends and the labels of the steps among these. Ids serve only to tell nodes
apart, so an injective renaming of them, and whatever no edge refers to, leaves the text as it is. -/

namespace Workflow

/-- Another edge is the image of this one under other ids. -/
structure Edge.Matches (f : Text → Text) (edge image : Edge) : Prop where
  source : image.source = f edge.source
  target : image.target = f edge.target
  condition : image.condition = edge.condition

/-- An edge with other ends; its id is dropped. -/
def Edge.along (f : Text → Text) (edge : Edge) : Edge :=
  ⟨"", f edge.source, f edge.target, edge.condition⟩

@[simp] theorem Edge.along_source (f : Text → Text) (edge : Edge) :
    (edge.along f).source = f edge.source := rfl

@[simp] theorem Edge.along_target (f : Text → Text) (edge : Edge) :
    (edge.along f).target = f edge.target := rfl

@[simp] theorem Edge.along_condition (f : Text → Text) (edge : Edge) :
    (edge.along f).condition = edge.condition := rfl

theorem Edge.matches_iff {f : Text → Text} {edge image : Edge} :
    edge.Matches f image ↔ edge.along f = image.along (·) := by
  rw [along, along, Edge.mk.injEq]
  constructor
  · intro same
    exact ⟨rfl, same.source.symm, same.target.symm, same.condition.symm⟩
  · rintro ⟨_, source, target, condition⟩
    exact ⟨source.symm, target.symm, condition.symm⟩

theorem Edge.forall₂_matches_iff {f : Text → Text} {edges images : List Edge} :
    List.Forall₂ (Edge.Matches f) edges images ↔
      edges.map (Edge.along f) = images.map (Edge.along (·)) := by
  rw [← List.forall₂_eq_eq_eq, List.forall₂_map_left_iff, List.forall₂_map_right_iff]
  constructor
  · exact List.Forall₂.imp fun _ _ => Edge.matches_iff.mp
  · exact List.Forall₂.imp fun _ _ => Edge.matches_iff.mpr

namespace Graph

def referenced (graph : Graph) : Set Text :=
  {id | ∃ edge ∈ graph.edges, edge.source = id ∨ edge.target = id}

theorem forall_referenced {graph : Graph} {P : Text → Prop} :
    (∀ id ∈ graph.referenced, P id) ↔ ∀ edge ∈ graph.edges, P edge.source ∧ P edge.target := by
  constructor
  · exact fun all edge member =>
      ⟨all _ ⟨edge, member, .inl rfl⟩, all _ ⟨edge, member, .inr rfl⟩⟩
  · rintro all id ⟨edge, member, rfl | rfl⟩
    · exact (all edge member).1
    · exact (all edge member).2

def direct (graph : Graph) : List Edge := graph.edges.filter (!·.isBranch)

def branches (graph : Graph) : List Edge := graph.edges.filter Edge.isBranch

def leaving (graph : Graph) (entry : Text) : List Edge := graph.direct.filter (·.source == entry)

def entering (graph : Graph) (entry terminal : Text) : List Edge :=
  graph.direct.filter fun edge => edge.target == terminal && edge.source != entry

def between (graph : Graph) (entry terminal : Text) : List Edge :=
  graph.direct.filter fun edge => edge.source != entry && edge.target != terminal

theorem directEdges_eq (graph : Graph) (entry terminal : Text) :
    graph.directEdges entry terminal =
      graph.leaving entry ++ graph.entering entry terminal ++ graph.between entry terminal := rfl

/-- The one entry and the one terminal of a graph. -/
structure Reserved (graph : Graph) (entry terminal : Node) : Prop where
  entry : graph.ofKind .entry = [entry]
  terminal : graph.ofKind .terminal = [terminal]

/-- The edges of two graphs with the given reserved nodes correspond to each other class by class, and
a renaming of the ids they refer to keeps kinds and the labels of steps. -/
structure SameTopology (f : Text → Text) (graph other : Graph)
    (first last otherFirst otherLast : Node) : Prop where
  injective : Set.InjOn f graph.referenced
  kind : ∀ id ∈ graph.referenced,
    (other.node? (f id)).map Node.kind = (graph.node? id).map Node.kind
  label : ∀ id ∈ graph.referenced, other.stepLabel? (f id) = graph.stepLabel? id
  leaving : List.Forall₂ (Edge.Matches f) (graph.leaving first.id) (other.leaving otherFirst.id)
  entering : List.Forall₂ (Edge.Matches f) (graph.entering first.id last.id)
    (other.entering otherFirst.id otherLast.id)
  between : List.Forall₂ (Edge.Matches f) (graph.between first.id last.id)
    (other.between otherFirst.id otherLast.id)
  branches : List.Forall₂ (Edge.Matches f) graph.branches other.branches

def groupsAlong (f : Text → Text) (groups : Table (List Edge)) : Table (List Edge) :=
  groups.map fun (source, members) => (f source, members.map (Edge.along f))

theorem get?_groupsAlong {f : Text → Text} {ids : Set Text} (injective : Set.InjOn f ids)
    {groups : Table (List Edge)} (known : ∀ key ∈ groups.keys, key ∈ ids) {source : Text}
    (inside : source ∈ ids) :
    (groupsAlong f groups).get? (f source) = (groups.get? source).map (List.map (Edge.along f)) := by
  induction groups with
  | nil => rfl
  | cons group rest ih =>
      obtain ⟨first, members⟩ := group
      have here := known first List.mem_cons_self
      have further := ih fun key member => known key (List.mem_cons_of_mem _ member)
      rw [groupsAlong] at further ⊢
      rw [List.map_cons, Table.get?, Table.get?]
      by_cases same : first = source
      · rw [if_pos same, if_pos (congrArg f same), Option.map_some]
      · rw [if_neg same, if_neg fun equal => same (injective here inside equal), further]

theorem groupsAlong_put {f : Text → Text} {ids : Set Text} (injective : Set.InjOn f ids)
    {groups : Table (List Edge)} (known : ∀ key ∈ groups.keys, key ∈ ids) {source : Text}
    (inside : source ∈ ids) (members : List Edge) :
    groupsAlong f (groups.put source members) =
      (groupsAlong f groups).put (f source) (members.map (Edge.along f)) := by
  induction groups with
  | nil => rfl
  | cons group rest ih =>
      obtain ⟨first, old⟩ := group
      have here := known first List.mem_cons_self
      have further := ih fun key member => known key (List.mem_cons_of_mem _ member)
      rw [groupsAlong] at further ⊢
      rw [groupsAlong, List.map_cons, Table.put, Table.put]
      by_cases same : first = source
      · rw [if_pos same, if_pos (congrArg f same), List.map_cons]
      · rw [if_neg same, if_neg fun equal => same (injective here inside equal), List.map_cons,
          further]
        rfl

theorem groupsAlong_gather {f : Text → Text} {ids : Set Text} (injective : Set.InjOn f ids)
    {groups : Table (List Edge)} (known : ∀ key ∈ groups.keys, key ∈ ids) {edge : Edge}
    (inside : edge.source ∈ ids) :
    groupsAlong f (gather groups edge) = gather (groupsAlong f groups) (edge.along f) := by
  rw [gather, gather, groupsAlong_put injective known inside, Edge.along_source,
    get?_groupsAlong injective known inside]
  congr 1
  cases groups.get? edge.source with
  | none => rfl
  | some members => rw [Option.map_some, Option.getD_some, Option.getD_some, List.map_append]; rfl

theorem keys_gather {ids : Set Text} {groups : Table (List Edge)}
    (known : ∀ key ∈ groups.keys, key ∈ ids) {edge : Edge} (inside : edge.source ∈ ids) :
    ∀ key ∈ (gather groups edge).keys, key ∈ ids := by
  intro key member
  rcases Table.mem_keys_put member with rfl | old
  · exact inside
  · exact known key old

theorem groupsAlong_foldl {f : Text → Text} {ids : Set Text} (injective : Set.InjOn f ids)
    {groups : Table (List Edge)} (known : ∀ key ∈ groups.keys, key ∈ ids) {edges : List Edge}
    (inside : ∀ edge ∈ edges, edge.source ∈ ids) :
    groupsAlong f (edges.foldl gather groups) =
      (edges.map (Edge.along f)).foldl gather (groupsAlong f groups) := by
  induction edges generalizing groups with
  | nil => rfl
  | cons edge rest ih =>
      obtain ⟨here, further⟩ := List.forall_mem_cons.mp inside
      rw [List.foldl_cons, List.map_cons, List.foldl_cons, ih (keys_gather known here) further,
        groupsAlong_gather injective known here]

theorem groupsAlong_groups {f : Text → Text} {graph : Graph}
    (injective : Set.InjOn f graph.referenced) :
    groupsAlong f graph.groups = (graph.branches.map (Edge.along f)).foldl gather [] := by
  have none : ∀ key ∈ Table.keys ([] : Table (List Edge)), key ∈ graph.referenced :=
    fun key member => absurd member List.not_mem_nil
  exact groupsAlong_foldl injective none fun edge member =>
    ⟨edge, List.mem_of_mem_filter member, .inl rfl⟩

theorem visited_along (f : Text → Text) (direct : List Edge) (groups : Table (List Edge)) :
    (visited direct groups).map f =
      visited (direct.map (Edge.along f)) (groupsAlong f groups) := by
  rw [visited, visited, groupsAlong, List.map_append, List.map_flatMap, List.map_flatMap,
    List.flatMap_map, List.flatMap_map]
  congr 1
  apply List.flatMap_congr
  rintro ⟨source, members⟩ _
  dsimp only
  rw [List.map_cons, List.map_map, List.map_map]
  rfl

theorem groupEntry_along {f : Text → Text} {graph other : Graph} {source : Text}
    {members : List Edge} (named : other.specName (f source) = graph.specName source)
    (targets : ∀ edge ∈ members, other.specName (f edge.target) = graph.specName edge.target) :
    other.groupEntry (f source, members.map (Edge.along f)) = graph.groupEntry (source, members) := by
  rw [groupEntry, groupEntry, List.findSome?_map, List.map_map, named]
  congr 1
  exact List.map_congr_left targets

theorem specName_eq (graph : Graph) (id : Text) :
    graph.specName id =
      match (graph.node? id).map Node.kind with
      | none => ""
      | some .entry => Spec.startName
      | some .terminal => Spec.endName
      | some .step => (graph.stepLabel? id).getD "" := by
  rw [specName, stepLabel?]
  cases graph.node? id with
  | none => rfl
  | some node =>
      obtain ⟨kind, name, label, position⟩ := node
      cases kind <;> rfl

theorem matches_back {f g : Text → Text} {graph : Graph}
    (inverse : ∀ id ∈ graph.referenced, g (f id) = id) {edges images : List Edge}
    (known : ∀ edge ∈ edges, edge ∈ graph.edges)
    (matched : List.Forall₂ (Edge.Matches f) edges images) :
    List.Forall₂ (Edge.Matches g) images edges := by
  induction matched with
  | nil => exact .nil
  | @cons edge image edges images here _ ih =>
      obtain ⟨inside, further⟩ := List.forall_mem_cons.mp known
      refine .cons ⟨?_, ?_, here.condition.symm⟩ (ih further)
      · rw [here.source, inverse edge.source ⟨edge, inside, .inl rfl⟩]
      · rw [here.target, inverse edge.target ⟨edge, inside, .inr rfl⟩]

namespace SameTopology

variable {f : Text → Text} {graph other : Graph} {first last otherFirst otherLast : Node}

theorem direct_along (same : SameTopology f graph other first last otherFirst otherLast) :
    (graph.directEdges first.id last.id).map (Edge.along f) =
      (other.directEdges otherFirst.id otherLast.id).map (Edge.along (·)) := by
  simp only [directEdges_eq, List.map_append, Edge.forall₂_matches_iff.mp same.leaving,
    Edge.forall₂_matches_iff.mp same.entering, Edge.forall₂_matches_iff.mp same.between]

theorem branches_along (same : SameTopology f graph other first last otherFirst otherLast) :
    graph.branches.map (Edge.along f) = other.branches.map (Edge.along (·)) :=
  Edge.forall₂_matches_iff.mp same.branches

theorem groups_along (same : SameTopology f graph other first last otherFirst otherLast) :
    groupsAlong f graph.groups = groupsAlong (·) other.groups := by
  have plain : Set.InjOn (fun id : Text => id) other.referenced := fun _ _ _ _ equal => equal
  rw [groupsAlong_groups same.injective, same.branches_along, groupsAlong_groups plain]

theorem exists_edge (same : SameTopology f graph other first last otherFirst otherLast)
    {image : Edge} (member : image ∈ other.edges) :
    ∃ edge ∈ graph.edges, edge.Matches f image := by
  have found (edges images : List Edge)
      (along : edges.map (Edge.along f) = images.map (Edge.along (·))) (inside : image ∈ images) :
      ∃ edge ∈ edges, edge.Matches f image := by
    have mapped : image.along (·) ∈ edges.map (Edge.along f) := along ▸ List.mem_map_of_mem inside
    obtain ⟨edge, known, equal⟩ := List.mem_map.mp mapped
    exact ⟨edge, known, Edge.matches_iff.mpr equal⟩
  cases branch : image.isBranch with
  | true =>
      obtain ⟨edge, known, image⟩ :=
        found _ _ same.branches_along (List.mem_filter.mpr ⟨member, branch⟩)
      exact ⟨edge, List.mem_of_mem_filter known, image⟩
  | false =>
      obtain ⟨edge, known, image⟩ := found _ _ same.direct_along (mem_directEdges.mpr ⟨member, branch⟩)
      exact ⟨edge, (mem_directEdges.mp known).1, image⟩

theorem referenced_image (same : SameTopology f graph other first last otherFirst otherLast)
    {image : Text} (member : image ∈ other.referenced) : ∃ id ∈ graph.referenced, f id = image := by
  obtain ⟨edge, inside, touched⟩ := member
  obtain ⟨original, known, image⟩ := same.exists_edge inside
  rcases touched with rfl | rfl
  · exact ⟨original.source, ⟨original, known, .inl rfl⟩, image.source.symm⟩
  · exact ⟨original.target, ⟨original, known, .inr rfl⟩, image.target.symm⟩

theorem back (same : SameTopology f graph other first last otherFirst otherLast) :
    ∃ g : Text → Text, (∀ id ∈ graph.referenced, g (f id) = id) ∧
      SameTopology g other graph otherFirst otherLast first last := by
  have inverse : ∀ id ∈ graph.referenced, Function.invFunOn f graph.referenced (f id) = id :=
    fun id known => same.injective.leftInvOn_invFunOn known
  refine ⟨Function.invFunOn f graph.referenced, inverse, ?_⟩
  generalize Function.invFunOn f graph.referenced = g at inverse
  have within {edges : List Edge} (direct : ∀ edge ∈ edges, edge ∈ graph.direct) :
      ∀ edge ∈ edges, edge ∈ graph.edges :=
    fun edge member => List.mem_of_mem_filter (direct edge member)
  constructor
  · intro image here other there equal
    obtain ⟨id, known, rfl⟩ := same.referenced_image here
    obtain ⟨second, present, rfl⟩ := same.referenced_image there
    rw [inverse id known, inverse second present] at equal
    rw [equal]
  · intro image member
    obtain ⟨id, known, rfl⟩ := same.referenced_image member
    rw [inverse id known, same.kind id known]
  · intro image member
    obtain ⟨id, known, rfl⟩ := same.referenced_image member
    rw [inverse id known, same.label id known]
  · exact matches_back inverse (within fun _ => List.mem_of_mem_filter) same.leaving
  · exact matches_back inverse (within fun _ => List.mem_of_mem_filter) same.entering
  · exact matches_back inverse (within fun _ => List.mem_of_mem_filter) same.between
  · exact matches_back inverse (fun _ => List.mem_of_mem_filter) same.branches

theorem specName_image (same : SameTopology f graph other first last otherFirst otherLast)
    {id : Text} (known : id ∈ graph.referenced) : other.specName (f id) = graph.specName id := by
  rw [specName_eq, specName_eq, same.kind id known, same.label id known]

theorem writable (same : SameTopology f graph other first last otherFirst otherLast)
    (reserved : other.Reserved otherFirst otherLast) {owner : Text → Text}
    (writable : graph.Writable first last owner) :
    other.Writable otherFirst otherLast (f ∘ owner) := by
  obtain ⟨g, inverse, _⟩ := same.back
  obtain ⟨label, conditions⟩ := writable.condition
  have present {id : Text} (known : id ∈ graph.referenced) (inside : id ∈ graph.nodeIds) :
      f id ∈ other.nodeIds := by
    rw [← hasNode_iff, hasNode, ← Option.isSome_map (f := Node.kind)] at inside ⊢
    rw [same.kind id known]
    exact inside
  have owns {id : Text} (known : id ∈ graph.referenced) (owned : graph.OwnsLabel owner id) :
      other.OwnsLabel (f ∘ owner) (f id) := by
    intro image found step
    have labelled : graph.stepLabel? id = some image.label := by
      rw [← same.label id known]
      exact stepLabel?_eq_some_iff.mpr ⟨image, found, step, rfl⟩
    obtain ⟨node, here, isStep, equal⟩ := stepLabel?_eq_some_iff.mp labelled
    obtain ⟨filled, notStart, notEnd, own⟩ := owned node here isStep
    rw [← equal]
    refine ⟨filled, notStart, notEnd, ?_⟩
    rw [Function.comp_apply, own, (node?_eq_some here).2, (node?_eq_some found).2]
  have touched {id : Text} (known : id ∈ graph.referenced) :
      f id ∈ other.nodeIds ∧ other.OwnsLabel (f ∘ owner) (f id) := by
    obtain ⟨edge, inside, ends⟩ := known
    obtain ⟨found, owned⟩ := writable.touched_owned inside ends
    exact ⟨present ⟨edge, inside, ends⟩ found, owns ⟨edge, inside, ends⟩ owned⟩
  have images {image : Edge} (member : image ∈ other.edges) :
      (image.source ∈ other.nodeIds ∧ other.OwnsLabel (f ∘ owner) image.source) ∧
        image.target ∈ other.nodeIds ∧ other.OwnsLabel (f ∘ owner) image.target := by
    obtain ⟨edge, inside, matched⟩ := same.exists_edge member
    rw [matched.source, matched.target]
    exact ⟨touched ⟨edge, inside, .inl rfl⟩, touched ⟨edge, inside, .inr rfl⟩⟩
  constructor
  · constructor
    · exact reserved.entry
    · exact reserved.terminal
    · exact fun image member => (images member).1.1
    · exact fun image member => (images member).2.1
    · refine ⟨label ∘ g, ?_⟩
      intro image member condition here
      obtain ⟨edge, inside, matched⟩ := same.exists_edge member
      rw [Function.comp_apply, matched.source, inverse edge.source ⟨edge, inside, .inl rfl⟩]
      exact conditions edge inside condition (matched.condition.symm.trans here)
  · exact fun image member => ⟨(images member).1.2, (images member).2.2⟩

theorem visited_same (same : SameTopology f graph other first last otherFirst otherLast) :
    (visited (graph.directEdges first.id last.id) graph.groups).map f =
      visited (other.directEdges otherFirst.id otherLast.id) other.groups := by
  rw [visited_along, same.direct_along, same.groups_along, ← visited_along]
  exact List.map_id _

theorem directEntries_same (same : SameTopology f graph other first last otherFirst otherLast) :
    (graph.directEdges first.id last.id).map graph.directEntry =
      (other.directEdges otherFirst.id otherLast.id).map other.directEntry :=
  calc (graph.directEdges first.id last.id).map graph.directEntry
    _ = ((graph.directEdges first.id last.id).map (Edge.along f)).map other.directEntry := by
      rw [List.map_map]
      apply List.map_congr_left
      intro edge member
      obtain ⟨inside, _⟩ := mem_directEdges.mp member
      rw [Function.comp_apply, directEntry, directEntry, Edge.along_source, Edge.along_target,
        same.specName_image ⟨edge, inside, .inl rfl⟩, same.specName_image ⟨edge, inside, .inr rfl⟩]
    _ = ((other.directEdges otherFirst.id otherLast.id).map (Edge.along (·))).map
        other.directEntry := by rw [same.direct_along]
    _ = (other.directEdges otherFirst.id otherLast.id).map other.directEntry := List.map_map

theorem groupEntries_same (same : SameTopology f graph other first last otherFirst otherLast) :
    graph.groups.map graph.groupEntry = other.groups.map other.groupEntry :=
  calc graph.groups.map graph.groupEntry
    _ = (groupsAlong f graph.groups).map other.groupEntry := by
      rw [groupsAlong, List.map_map]
      apply List.map_congr_left
      rintro ⟨source, members⟩ group
      obtain ⟨filled, own⟩ := group_of_mem group
      obtain ⟨edge, rest, cons⟩ := List.exists_cons_of_ne_nil filled
      obtain ⟨inside, here, _⟩ := own edge (cons ▸ List.mem_cons_self)
      refine (groupEntry_along ?_ ?_).symm
      · exact same.specName_image ⟨edge, inside, .inl here⟩
      · exact fun member known => same.specName_image ⟨member, (own member known).1, .inr rfl⟩
    _ = (groupsAlong (·) other.groups).map other.groupEntry := by rw [same.groups_along]
    _ = other.groups.map other.groupEntry := by
      rw [groupsAlong, List.map_map]
      apply List.map_congr_left
      rintro ⟨source, members⟩ _
      exact @groupEntry_along (·) other other source members rfl fun _ _ => rfl

/-- What is written of the one is what is written of the other. -/
theorem written_same (same : SameTopology f graph other first last otherFirst otherLast)
    (config : Spec.Config) :
    graph.written config first last = other.written config otherFirst otherLast := by
  have labels : (visited (graph.directEdges first.id last.id) graph.groups).filterMap
      graph.stepLabel? = (visited (other.directEdges otherFirst.id otherLast.id)
        other.groups).filterMap other.stepLabel? := by
    rw [← same.visited_same, List.filterMap_map]
    apply List.filterMap_congr
    intro id member
    exact (same.label id (mem_visited.mp member)).symm
  rw [written, written, labels, same.directEntries_same, same.groupEntries_same]

theorem toDocument_of_same (same : SameTopology f graph other first last otherFirst otherLast)
    (reserved : graph.Reserved first last) (otherReserved : other.Reserved otherFirst otherLast)
    {config : Spec.Config} {document : Spec.Document}
    (made : graph.toDocument config = .ok document) : other.toDocument config = .ok document := by
  obtain ⟨entry, terminal, owner, writable, rfl⟩ := toDocument_eq_ok_iff.mp made
  obtain rfl := List.singleton_inj.mp (reserved.entry.symm.trans writable.entry)
  obtain rfl := List.singleton_inj.mp (reserved.terminal.symm.trans writable.terminal)
  exact toDocument_eq_ok_iff.mpr ⟨otherFirst, otherLast, f ∘ owner,
    same.writable otherReserved writable, same.written_same config⟩

end SameTopology

theorem toOption_encode [Host] (graph : Graph) (config : Spec.Config) (language : Option Text) :
    (graph.encode config language).toOption =
      (graph.toDocument config).toOption.bind fun document => (document.text language).toOption := by
  rw [encode]
  cases graph.toDocument config with
  | error violation => rfl
  | ok document =>
      change ((document.text language).mapError _).toOption = (document.text language).toOption
      cases document.text language <;> rfl

/-- The text of a graph depends on its topology alone: of two graphs that correspond, both have the
same text or neither has one. -/
theorem encode_of_topology [Host] {f : Text → Text} {graph other : Graph}
    {first last otherFirst otherLast : Node} (reserved : graph.Reserved first last)
    (otherReserved : other.Reserved otherFirst otherLast)
    (same : SameTopology f graph other first last otherFirst otherLast) (config : Spec.Config)
    (language : Option Text) :
    (graph.encode config language).toOption = (other.encode config language).toOption := by
  rw [toOption_encode, toOption_encode]
  congr 1
  cases made : graph.toDocument config with
  | ok document => rw [same.toDocument_of_same reserved otherReserved made]
  | error violation =>
      cases written : other.toDocument config with
      | error cause => rfl
      | ok document =>
          obtain ⟨g, _, back⟩ := same.back
          have impossible := back.toDocument_of_same otherReserved reserved written
          rw [made] at impossible
          cases impossible

/-- The topology of `crossing` under other ids and labels, in another order, with a step to spare. -/
def crossingRenamed : Graph where
  nodes := [.step "act" "Act" (.ofInts 3 4), ⟨.terminal, "out", "done", .origin⟩,
    .step "spare" "Act" .origin, ⟨.entry, "in", "", .bottom⟩, .step "plan" "Plan" .origin]
  edges := [.direct "e" "in" "plan", .direct "d" "act" "out", .direct "c" "act" "out",
    .branch "b" "plan" "act" "conditional_edge_12", .branch "b" "plan" "out" "conditional_edge_12",
    .direct "a" "plan" "plan"]
  conditionLabels := [("spare", "kept")]
  groupCount := 12
  nodeCount := 5
  edgeCount := 7

def crossingName : Text → Text
  | "a" => "plan"
  | "b" => "act"
  | "source" => "in"
  | _ => "out"

theorem sameTopology_crossing :
    SameTopology crossingName crossing crossingRenamed .entry .terminal
      ⟨.entry, "in", "", .bottom⟩ ⟨.terminal, "out", "done", .origin⟩ := by
  constructor
  · intro id member other there
    revert other
    revert id
    simp only [forall_referenced]
    decide
  · exact forall_referenced.mpr (by decide)
  · exact forall_referenced.mpr (by decide)
  · exact Edge.forall₂_matches_iff.mpr (by decide)
  · exact Edge.forall₂_matches_iff.mpr (by decide)
  · exact Edge.forall₂_matches_iff.mpr (by decide)
  · exact Edge.forall₂_matches_iff.mpr (by decide)

section Usual

attribute [local instance] Host.usual

theorem encode_of_topology_crossing :
    crossing.Reserved .entry .terminal ∧
      crossingRenamed.Reserved ⟨.entry, "in", "", .bottom⟩ ⟨.terminal, "out", "done", .origin⟩ ∧
      SameTopology crossingName crossing crossingRenamed .entry .terminal
        ⟨.entry, "in", "", .bottom⟩ ⟨.terminal, "out", "done", .origin⟩ ∧
      (crossing.encode .standard none).toOption = (crossingRenamed.encode .standard none).toOption ∧
      (crossing.toDocument .standard).toOption.isSome = true := by
  have reserved : crossing.Reserved .entry .terminal := ⟨by decide, by decide⟩
  have otherReserved : crossingRenamed.Reserved ⟨.entry, "in", "", .bottom⟩
      ⟨.terminal, "out", "done", .origin⟩ := ⟨by decide +kernel, by decide +kernel⟩
  exact ⟨reserved, otherReserved, sameTopology_crossing,
    encode_of_topology reserved otherReserved sameTopology_crossing .standard none, by decide +kernel⟩

end Usual

end Graph

end Workflow
