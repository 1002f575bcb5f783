import Workflow.Proofs.Graph.LabelNumber
import Workflow.Proofs.Graph.RebuiltLabel

/-! The graph of a specification holds what the specification says, and nothing else: its steps, its
edges one by one, and the labels of its groups. -/

namespace Workflow.Spec.Document

variable {document : Document} {name id : Text}

instance (document : Document) (name : Text) : Decidable (document.Knows name) :=
  inferInstanceAs (Decidable (name = startName ∨ name = endName ∨ name ∈ document.nodes))

/-- Where a name leads. Of several steps with one name the first counts, and a name that nothing bears
leads to the terminal. -/
inductive Leads (document : Document) : Text → Text → Prop where
  | start : document.Leads startName Node.entry.id
  | stop : document.Leads endName Node.terminal.id
  | step {name : Text} {index : Nat} (notStart : name ≠ startName) (notEnd : name ≠ endName)
    (named : document.nodes[index]? = some name)
    (first : ∀ earlier < index, document.nodes[earlier]? ≠ some name) :
    document.Leads name (stepId (index + 1))
  | unknown {name : Text} (unknown : ¬ document.Knows name) :
    document.Leads name Node.terminal.id

theorem idOf?_eq_none_iff : document.idOf? name = none ↔ ¬ document.Knows name := by
  constructor
  · intro absent known
    have found := idOf?_isSome known
    rw [absent] at found
    exact absurd found (by simp)
  · intro unknown
    obtain ⟨notStart, notEnd, fresh⟩ : name ≠ startName ∧ name ≠ endName ∧ name ∉ document.nodes := by
      simpa [Knows] using unknown
    rw [idOf?, if_neg notStart, if_neg notEnd, Option.map_eq_none_iff, List.find?_eq_none]
    intro step member same
    rw [← beq_iff_eq.mp same, ← map_label_steps] at fresh
    exact fresh (List.mem_map_of_mem member)

theorem getElem?_steps {index : Nat} {step : Node} (found : document.steps[index]? = some step) :
    document.nodes[index]? = some step.label ∧ step.id = stepId (index + 1) := by
  have label : (document.steps.map Node.label)[index]? = some step.label := by
    rw [List.getElem?_map, found, Option.map_some]
  have numbered : (document.steps.map Node.id)[index]? = some step.id := by
    rw [List.getElem?_map, found, Option.map_some]
  rw [map_label_steps] at label
  rw [map_id_steps, List.getElem?_map] at numbered
  obtain ⟨place, inside, same⟩ := Option.map_eq_some_iff.mp numbered
  obtain ⟨_, rfl⟩ := List.getElem?_eq_some_iff.mp inside
  rw [List.getElem_range] at same
  exact ⟨label, same.symm⟩

theorem resolve_of_leads (leads : document.Leads name id) : document.resolve name = id := by
  cases leads with
  | start => exact resolve_startName document
  | stop => exact resolve_endName document
  | unknown unknown => rw [resolve_eq, idOf?_eq_none_iff.mpr unknown, Option.getD_none]
  | @step name index notStart notEnd named first =>
      have listed := named
      rw [← map_label_steps, List.getElem?_map] at listed
      obtain ⟨step, here, rfl⟩ := Option.map_eq_some_iff.mp listed
      obtain ⟨bound, same⟩ := List.getElem?_eq_some_iff.mp here
      have found : document.steps.find? (·.label == step.label) = some step := by
        rw [List.find?_eq_some_iff_getElem]
        refine ⟨beq_self_eq_true step.label, index, bound, same, ?_⟩
        intro earlier before
        have other := getElem?_steps (List.getElem?_eq_getElem (Nat.lt_trans before bound))
        simp only [Bool.not_eq_true', beq_eq_false_iff_ne]
        intro equal
        exact first earlier before (other.1.trans (congrArg some equal))
      rw [resolve_eq, idOf?, if_neg notStart, if_neg notEnd, found, Option.map_some, Option.getD_some,
        (getElem?_steps here).2]

theorem exists_leads (document : Document) (name : Text) : ∃ id, document.Leads name id := by
  by_cases start : name = startName
  · rw [start]
    exact ⟨_, .start⟩
  · by_cases stop : name = endName
    · rw [stop]
      exact ⟨_, .stop⟩
    · by_cases member : name ∈ document.nodes
      · have listed := List.mem_iff_getElem?.mp member
        exact ⟨_, .step start stop (Nat.find_spec listed) fun _ => Nat.find_min listed⟩
      · exact ⟨_, .unknown (by simp [Knows, start, stop, member])⟩

theorem leads_iff : document.Leads name id ↔ document.resolve name = id := by
  refine ⟨resolve_of_leads, ?_⟩
  rintro rfl
  obtain ⟨other, leads⟩ := exists_leads document name
  rw [resolve_of_leads leads]
  exact leads

/-- An edge as an entry asks for it, between names. -/
structure Request where
  id : Text
  source : Text
  target : Text
  condition : Option Text

/-- The edges that the entry at an index asks for: one if it is direct, and one for each path if it is
a group of branches. -/
def requestsOf (index : Nat) : Entry → List Request
  | .direct source target => [⟨edgeId index, source, target, none⟩]
  | .branch source condition paths =>
    paths.zipIdx.map fun (path, place) => ⟨pathId index place, source, path, some condition⟩

def requestsFrom : Nat → List Entry → List Request
  | _, [] => []
  | index, entry :: rest => requestsOf index entry ++ requestsFrom (index + 1) rest

/-- An edge that is as it was asked for. -/
structure Answers (document : Document) (request : Request) (edge : Edge) : Prop where
  id : edge.id = request.id
  source : document.Leads request.source edge.source
  target : document.Leads request.target edge.target
  condition : edge.condition = request.condition

theorem answers_edgesOf (document : Document) (index : Nat) (entry : Entry) :
    List.Forall₂ document.Answers (requestsOf index entry) (document.edgesOf index entry) := by
  cases entry with
  | direct source target =>
      exact .cons ⟨rfl, leads_iff.mpr rfl, leads_iff.mpr rfl, rfl⟩ .nil
  | branch source condition paths =>
      rw [requestsOf, edgesOf, List.forall₂_map_left_iff, List.forall₂_map_right_iff,
        List.forall₂_same]
      rintro ⟨path, place⟩ _
      exact ⟨rfl, leads_iff.mpr rfl, leads_iff.mpr rfl, rfl⟩

theorem answers_edgesFrom (document : Document) (index : Nat) (entries : List Entry) :
    List.Forall₂ document.Answers (requestsFrom index entries) (document.edgesFrom index entries) := by
  induction entries generalizing index with
  | nil => exact .nil
  | cons entry rest ih =>
      exact List.rel_append (answers_edgesOf document index entry) (ih (index + 1))

theorem nodup_conditionsFrom {labels found : Table Text} {index : Nat} {entries : List Entry}
    (read : document.conditionsFrom labels index entries = .ok found) (distinct : labels.keys.Nodup) :
    found.keys.Nodup := by
  induction entries generalizing labels index with
  | nil =>
      obtain rfl := Except.ok.inj read
      exact distinct
  | cons entry rest ih =>
      cases entry with
      | direct source target => exact ih read distinct
      | branch source condition paths =>
          rw [conditionsFrom] at read
          split at read
          · exact ih read (Table.nodup_keys_put distinct condition)
          · split at read
            · exact ih read distinct
            · exact absurd read (by simp)

theorem mem_keys_conditions {labels : Table Text} (read : document.conditions = .ok labels) :
    id ∈ labels.keys ↔ ∃ source condition paths,
      .branch source condition paths ∈ document.edges ∧ document.Leads source id := by
  constructor
  · intro member
    cases known : labels.get? id with
    | none => exact absurd member (Table.get?_eq_none_iff.mp known)
    | some condition =>
        rcases entry_of_conditionsFrom read known with impossible | ⟨source, paths, entered, led⟩
        · cases impossible
        · exact ⟨source, condition, paths, entered, leads_iff.mpr led⟩
  · rintro ⟨source, condition, paths, entered, leads⟩
    have kept := (get?_conditionsFrom read).2 source condition paths entered
    rw [leads_iff.mp leads] at kept
    exact Classical.byContradiction fun absent =>
      absurd ((Table.get?_eq_none_iff.mpr absent).symm.trans kept) (by simp)

/-- The names that nothing bears, each as often as the entries name it, sources before targets. -/
def unknownNames (document : Document) : List Text :=
  (document.edges.flatMap names).filter fun name => ¬ document.Knows name

/-- What was rebuilt holds what the specification says, and nothing else. -/
structure Describes (document : Document) (decoded : Decoded) : Prop where
  config : decoded.config = document.config
  nodes : decoded.graph.nodes.map (fun node => (node.kind, node.id, node.label)) =
    (.entry, ("source" : Text), ("source" : Text)) :: (.terminal, ("end" : Text), ("end" : Text)) ::
      document.nodes.zipIdx.map fun (name, place) => (.step, stepId (place + 1), name)
  edges : List.Forall₂ document.Answers (requestsFrom 0 document.edges) decoded.graph.edges
  unresolved : decoded.unresolved = document.unknownNames
  warnings : decoded.warnings = document.unknownNames.map fun name =>
    "unknown node " ++ Text.literal name ++ " in specification, routing edge to " ++ "__end__"
  /-- All branches of a source carry the label that is kept for it. -/
  branches : ∀ edge ∈ decoded.graph.edges, ∀ condition, edge.condition = some condition →
    decoded.graph.conditionLabels.get? edge.source = some condition
  conditions : ∀ source condition paths id, .branch source condition paths ∈ document.edges →
    document.Leads source id → decoded.graph.conditionLabels.get? id = some condition
  sources : ∀ id, id ∈ decoded.graph.conditionLabels.keys ↔ ∃ source condition paths,
    .branch source condition paths ∈ document.edges ∧ document.Leads source id
  distinct : decoded.graph.conditionLabels.keys.Nodup
  /-- No label has a number beyond the counter. -/
  bound : ∀ label ∈ decoded.graph.conditionLabels.map Prod.snd, ∀ number : Nat,
    HasNumber label number → (number : Int) ≤ decoded.graph.groupCount
  attained : (∃ label ∈ decoded.graph.conditionLabels.map Prod.snd, ∃ number : Nat,
      HasNumber label number ∧ decoded.graph.groupCount = number) ∨
    decoded.graph.groupCount = 0 ∧
      ∀ label ∈ decoded.graph.conditionLabels.map Prod.snd, ∀ number, ¬ HasNumber label number
  nodeCount : decoded.graph.nodeCount = document.nodes.length
  edgeCount : decoded.graph.edgeCount = decoded.graph.edges.length

theorem warning_route (document : Document) (name : Text) :
    (document.route name).warning = if document.Knows name then none else
      some ("unknown node " ++ Text.literal name ++ " in specification, routing edge to " ++ endName) := by
  rw [route]
  cases found : document.idOf? name with
  | none => rw [if_neg (idOf?_eq_none_iff.mp found)]
  | some id =>
      have known : document.Knows name := Classical.byContradiction fun unknown =>
        absurd (found.symm.trans (idOf?_eq_none_iff.mpr unknown)) (by simp)
      rw [if_pos known]

theorem unresolved_eq (document : Document) : document.unresolved = document.unknownNames := by
  refine List.filter_congr fun name _ => ?_
  rw [warning_route]
  by_cases known : document.Knows name <;> simp [known]

theorem warnings_eq (document : Document) :
    document.warnings = document.unknownNames.map fun name =>
      "unknown node " ++ Text.literal name ++ " in specification, routing edge to " ++ endName := by
  rw [unknownNames, ← List.filterMap_eq_map, List.filterMap_filter]
  refine List.filterMap_congr fun name _ => ?_
  rw [warning_route]
  by_cases known : document.Knows name <;> simp [known]

theorem unresolved_of_toGraph {decoded : Decoded} (found : document.toGraph = .ok decoded) :
    decoded.config = document.config ∧ decoded.unresolved = document.unknownNames ∧
      decoded.warnings = document.warnings := by
  obtain ⟨labels, groups, read, counted, _⟩ := parts_of_toGraph found
  rw [toGraph_of_parts read counted] at found
  obtain rfl := Except.ok.inj found
  exact ⟨rfl, unresolved_eq document, rfl⟩

/-- A specification that has a graph is described by it, part by part. -/
theorem describes_rebuilt {decoded : Decoded} (found : document.toGraph = .ok decoded) :
    document.Describes decoded := by
  obtain ⟨config, unresolved, warnings⟩ := unresolved_of_toGraph found
  obtain ⟨labels, groups, read, counted, same⟩ := parts_of_toGraph found
  have agreed (edge : Edge) (member : edge ∈ decoded.graph.edges) (condition : Text)
      (branch : edge.condition = some condition) :
      decoded.graph.conditionLabels.get? edge.source = some condition := by
    rw [same] at member ⊢
    exact agreed_graphWith read groups edge.source edge (Graph.mem_outgoing.mpr ⟨member, rfl⟩)
      condition branch
  obtain ⟨bound, attained⟩ := greatestGeneric_attained counted
  constructor
  case config => exact config
  case unresolved => exact unresolved
  case warnings =>
    rw [warnings, warnings_eq]
    rfl
  case branches => exact agreed
  case nodes =>
    rw [same, ← map_face_steps]
    rfl
  all_goals rw [same]
  case edges => exact answers_edgesFrom document 0 document.edges
  case conditions =>
    intro source condition paths id entered leads
    rw [← leads_iff.mp leads]
    exact (get?_conditionsFrom read).2 source condition paths entered
  case sources => exact fun id => mem_keys_conditions read
  case distinct => exact nodup_conditionsFrom read List.nodup_nil
  case bound => exact bound
  case attained => exact attained
  case nodeCount => rfl
  case edgeCount => rfl

/-- Two steps of one name, a step with a reserved name, unknown names at both ends, a group without
paths, and a group of one source in two entries whose label has digits of two scripts. -/
def tangled : Document where
  config := .standard
  nodes := ["plan", "plan", "__start__"]
  edges := [.branch "plan" "conditional_edge_0٧\n" ["ghost", "plan", "__start__"],
    .direct "nowhere" "__end__", .branch "__end__" "done" [], .direct "plan" "ghost",
    .branch "plan" "conditional_edge_0٧\n" ["plan"]]

def untangled : Decoded where
  graph :=
    { nodes := [.entry, .terminal, .step "step-1" "plan" ⟨.ofInt (-200), .ofInt 175⟩,
        .step "step-2" "plan" ⟨.ofInt 200, .ofInt 300⟩, .step "step-3" "__start__" ⟨.ofInt (-200), .ofInt 425⟩]
      edges := [.branch "edge-0-0" "step-1" "end" "conditional_edge_0٧\n",
        .branch "edge-0-1" "step-1" "step-1" "conditional_edge_0٧\n",
        .branch "edge-0-2" "step-1" "source" "conditional_edge_0٧\n", .direct "edge-1" "end" "end",
        .direct "edge-3" "step-1" "end", .branch "edge-4-0" "step-1" "step-1" "conditional_edge_0٧\n"]
      conditionLabels := [("step-1", "conditional_edge_0٧\n"), ("end", "done")]
      groupCount := 7
      nodeCount := 3
      edgeCount := 6 }
  config := .standard
  unresolved := ["ghost", "nowhere", "ghost"]
  warnings := ["unknown node 'ghost' in specification, routing edge to __end__",
    "unknown node 'nowhere' in specification, routing edge to __end__",
    "unknown node 'ghost' in specification, routing edge to __end__"]

theorem describes_rebuilt_tangled :
    tangled.toGraph = .ok untangled ∧ tangled.Describes untangled := by
  have found : tangled.toGraph = .ok untangled := by decide +kernel
  exact ⟨found, describes_rebuilt found⟩

end Workflow.Spec.Document
