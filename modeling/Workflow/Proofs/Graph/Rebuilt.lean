import Workflow.Graph.Rebuild
import Workflow.Proofs.Graph.Coherence

/-! The graph of a specification, part by part. -/

namespace Workflow.Spec.Document

def edgesFrom (document : Document) : Nat → List Entry → List Edge
  | _, [] => []
  | index, entry :: rest => document.edgesOf index entry ++ document.edgesFrom (index + 1) rest

theorem flatten_edges (document : Document) (index : Nat) (entries : List Entry) :
    ((entries.zipIdx index).map fun (entry, place) => document.edgesOf place entry).flatten =
      document.edgesFrom index entries := by
  induction entries generalizing index with
  | nil => rfl
  | cons entry rest ih =>
      rw [List.zipIdx_cons, List.map_cons, List.flatten_cons, ih]
      rfl

def graphWith (document : Document) (labels : Table Text) (groups : Int) : Graph where
  nodes := .entry :: .terminal :: document.steps
  edges := document.edgesFrom 0 document.edges
  conditionLabels := labels
  groupCount := groups
  nodeCount := document.nodes.length
  edgeCount := (document.edgesFrom 0 document.edges).length

theorem toGraph_of_parts {document : Document} {labels : Table Text} {groups : Int}
    (read : document.conditions = .ok labels)
    (counted : greatestGeneric (labels.map Prod.snd) = .ok groups) :
    document.toGraph = .ok ⟨document.graphWith labels groups, document.config, document.unresolved,
      document.warnings⟩ := by
  have edges := flatten_edges document 0 document.edges
  rw [toGraph, read]
  simp only [bind, Except.bind, counted]
  rw [edges]
  rfl

theorem parts_of_toGraph {document : Document} {decoded : Decoded}
    (found : document.toGraph = .ok decoded) :
    ∃ labels groups, document.conditions = .ok labels ∧
      greatestGeneric (labels.map Prod.snd) = .ok groups ∧
      decoded.graph = document.graphWith labels groups := by
  cases read : document.conditions with
  | error fault => simp [toGraph, read, bind, Except.bind] at found
  | ok labels =>
      cases counted : greatestGeneric (labels.map Prod.snd) with
      | error fault => simp [toGraph, read, counted, bind, Except.bind] at found
      | ok groups =>
          rw [toGraph_of_parts read counted] at found
          obtain rfl := Except.ok.inj found
          exact ⟨labels, groups, rfl, counted, rfl⟩

theorem map_face_zip (names : List Text) (positions : List Position) (index : Nat)
    (enough : names.length ≤ positions.length) :
    ((names.zip positions).zipIdx index).map (fun ((name, position), place) =>
        let step := Node.step (stepId (place + 1)) name position
        (step.kind, step.id, step.label)) =
      (names.zipIdx index).map fun (name, place) => (Kind.step, stepId (place + 1), name) := by
  induction names generalizing positions index with
  | nil => rfl
  | cons name names ih =>
      cases positions with
      | nil => simp at enough
      | cons position positions =>
          rw [List.zip_cons_cons, List.zipIdx_cons, List.map_cons, ih positions (index + 1)
            (by simpa using enough)]
          rfl

theorem map_face_steps (document : Document) :
    document.steps.map (fun step => (step.kind, step.id, step.label)) =
      document.nodes.zipIdx.map fun (name, place) => (Kind.step, stepId (place + 1), name) := by
  rw [← map_face_zip document.nodes (Layout.positions document.nodes.length) 0
    (Nat.le_of_eq (Layout.length_positions _).symm), steps, List.map_map]
  rfl

theorem map_id_steps (document : Document) :
    document.steps.map Node.id =
      (List.range document.nodes.length).map fun place : Nat => stepId (place + 1) := by
  calc document.steps.map Node.id
    _ = (document.steps.map fun step => (step.kind, step.id, step.label)).map (·.2.1) := by
      rw [List.map_map]
      rfl
    _ = (document.nodes.zipIdx.map Prod.snd).map fun place : Nat => stepId (place + 1) := by
      rw [map_face_steps, List.map_map, List.map_map]
      rfl
    _ = (List.range document.nodes.length).map fun place : Nat => stepId (place + 1) := by
      rw [List.zipIdx_map_snd, List.range_eq_range']

theorem map_label_steps (document : Document) : document.steps.map Node.label = document.nodes := by
  calc document.steps.map Node.label
    _ = (document.steps.map fun step => (step.kind, step.id, step.label)).map (·.2.2) := by
      rw [List.map_map]
      rfl
    _ = document.nodes.zipIdx.map Prod.fst := by
      rw [map_face_steps, List.map_map]
      rfl
    _ = document.nodes := List.zipIdx_map_fst 0 document.nodes

theorem kind_of_steps {document : Document} {node : Node} (member : node ∈ document.steps) :
    node.kind = .step := by
  obtain ⟨⟨⟨name, position⟩, place⟩, _, rfl⟩ := List.mem_map.mp member
  rfl

theorem nodup_stepIds (count : Nat) :
    (Node.entry.id :: Node.terminal.id ::
      (List.range count).map fun place : Nat => stepId (place + 1)).Nodup := by
  have numbered : ((List.range count).map fun place : Nat => stepId (place + 1)).Nodup := by
    refine List.Pairwise.map _ (fun first second unequal same => unequal ?_) List.nodup_range
    have equal := stepId_injective same
    omega
  rw [List.nodup_cons, List.nodup_cons]
  refine ⟨?_, ?_, numbered⟩
  · intro member
    rcases List.mem_cons.mp member with same | step
    · exact absurd same (by decide)
    · obtain ⟨place, _, same⟩ := List.mem_map.mp step
      exact stepId_ne_entry _ same
  · intro step
    obtain ⟨place, _, same⟩ := List.mem_map.mp step
    exact stepId_ne_terminal _ same

theorem nodeIds_graphWith (document : Document) (labels : Table Text) (groups : Int) :
    (document.graphWith labels groups).nodeIds = Node.entry.id :: Node.terminal.id ::
      (List.range document.nodes.length).map fun place : Nat => stepId (place + 1) := by
  rw [← map_id_steps]
  rfl

theorem resolve_mem (document : Document) (labels : Table Text) (groups : Int) (name : Text) :
    document.resolve name ∈ (document.graphWith labels groups).nodeIds := by
  rw [resolve_eq]
  unfold idOf?
  split
  · exact List.mem_cons_self
  · split
    · exact List.mem_cons_of_mem _ List.mem_cons_self
    · cases found : document.steps.find? (·.label == name) with
      | none => exact List.mem_cons_of_mem _ List.mem_cons_self
      | some node =>
          have member := List.mem_of_find?_eq_some found
          exact List.mem_cons_of_mem _ (List.mem_cons_of_mem _ (List.mem_map_of_mem member))

def IsIdAt (index : Nat) (id : Text) : Prop :=
  id = edgeId index ∨ ∃ place : Nat, id = pathId index place

theorem IsIdAt.unique {first second : Nat} {id : Text} (here : IsIdAt first id)
    (there : IsIdAt second id) : first = second := by
  rcases here with rfl | ⟨left, rfl⟩
  · rcases there with same | ⟨right, same⟩
    · exact Int.ofNat.inj (edgeId_injective same)
    · exact absurd same (edgeId_ne_pathId first second right)
  · rcases there with same | ⟨right, same⟩
    · exact absurd same.symm (edgeId_ne_pathId second first left)
    · exact (pathId_injective same).1

theorem id_of_edgesOf {document : Document} {index : Nat} {entry : Entry} {edge : Edge}
    (member : edge ∈ document.edgesOf index entry) : IsIdAt index edge.id := by
  cases entry with
  | direct source target =>
      obtain rfl := List.mem_singleton.mp member
      exact .inl rfl
  | branch source condition paths =>
      obtain ⟨⟨path, place⟩, _, rfl⟩ := List.mem_map.mp member
      exact .inr ⟨place, rfl⟩

theorem id_of_edgesFrom {document : Document} {index : Nat} {entries : List Entry} {edge : Edge}
    (member : edge ∈ document.edgesFrom index entries) :
    ∃ place, index ≤ place ∧ IsIdAt place edge.id := by
  induction entries generalizing index with
  | nil => exact absurd member List.not_mem_nil
  | cons entry rest ih =>
      rcases List.mem_append.mp member with here | further
      · exact ⟨index, Nat.le_refl _, id_of_edgesOf here⟩
      · obtain ⟨place, later, known⟩ := ih further
        exact ⟨place, by omega, known⟩

theorem ends_of_edgesFrom {document : Document} {index : Nat} {entries : List Entry} {edge : Edge}
    (member : edge ∈ document.edgesFrom index entries) :
    ∃ source ∈ entries.flatMap names, ∃ target ∈ entries.flatMap names,
      edge.source = document.resolve source ∧ edge.target = document.resolve target := by
  induction entries generalizing index with
  | nil => exact absurd member List.not_mem_nil
  | cons entry rest ih =>
      simp only [List.flatMap_cons, List.mem_append]
      rcases List.mem_append.mp member with here | further
      · cases entry with
        | direct source target =>
            obtain rfl := List.mem_singleton.mp here
            exact ⟨source, .inl List.mem_cons_self, target,
              .inl (List.mem_cons_of_mem _ List.mem_cons_self), rfl, rfl⟩
        | branch source condition paths =>
            obtain ⟨⟨path, place⟩, inside, rfl⟩ := List.mem_map.mp here
            have known : path ∈ paths := by
              rw [← List.zipIdx_map_fst 0 paths]
              exact List.mem_map_of_mem inside
            exact ⟨source, .inl List.mem_cons_self, path, .inl (List.mem_cons_of_mem _ known), rfl, rfl⟩
      · obtain ⟨source, left, target, right, same⟩ := ih further
        exact ⟨source, .inr left, target, .inr right, same⟩

theorem nodup_edgesOf (document : Document) (index : Nat) (entry : Entry) :
    ((document.edgesOf index entry).map Edge.id).Nodup := by
  cases entry with
  | direct source target => exact List.nodup_singleton _
  | branch source condition paths =>
      have places : (document.edgesOf index (.branch source condition paths)).map Edge.id =
          (paths.zipIdx.map Prod.snd).map fun place : Nat => pathId index place := by
        rw [edgesOf, List.map_map, List.map_map]
        rfl
      rw [places, List.zipIdx_map_snd]
      refine List.Pairwise.map _ (fun first second unequal same => unequal ?_) List.nodup_range'
      exact (pathId_injective same).2

theorem nodup_edgesFrom (document : Document) (index : Nat) (entries : List Entry) :
    ((document.edgesFrom index entries).map Edge.id).Nodup := by
  induction entries generalizing index with
  | nil => exact List.nodup_nil
  | cons entry rest ih =>
      rw [edgesFrom, List.map_append, List.nodup_append]
      refine ⟨nodup_edgesOf document index entry, ih (index + 1), ?_⟩
      intro id here other there same
      obtain ⟨edge, member, rfl⟩ := List.mem_map.mp here
      obtain ⟨later, behind, rfl⟩ := List.mem_map.mp there
      obtain ⟨place, after, known⟩ := id_of_edgesFrom behind
      have equal := (id_of_edgesOf member).unique (same ▸ known)
      omega

theorem keys_of_conditionsFrom {document : Document} {labels found : Table Text} {index : Nat}
    {entries : List Entry} (read : document.conditionsFrom labels index entries = .ok found)
    {id : Text} (member : id ∈ found.keys) :
    id ∈ labels.keys ∨ ∃ name, id = document.resolve name := by
  induction entries generalizing labels index with
  | nil =>
      obtain rfl := Except.ok.inj read
      exact .inl member
  | cons entry rest ih =>
      cases entry with
      | direct source target => exact ih read
      | branch source condition paths =>
          simp only [conditionsFrom] at read
          split at read
          · rcases ih read with known | named
            · rcases Table.mem_keys_put known with rfl | old
              · exact .inr ⟨source, rfl⟩
              · exact .inl old
            · exact .inr named
          · split at read
            · exact ih read
            · exact absurd read (by simp)

theorem ofKind_graphWith (document : Document) (labels : Table Text) (groups : Int) :
    (document.graphWith labels groups).ofKind .entry = [.entry] ∧
      (document.graphWith labels groups).ofKind .terminal = [.terminal] ∧
      (document.graphWith labels groups).ofKind .step = document.steps := by
  have others (kind : Kind) (other : kind ≠ .step) :
      document.steps.filter (·.kind == kind) = [] := by
    apply List.filter_eq_nil_iff.mpr
    intro node member
    rw [kind_of_steps member]
    simpa using Ne.symm other
  have own : document.steps.filter (·.kind == .step) = document.steps :=
    List.filter_eq_self.mpr fun node member => beq_iff_eq.mpr (kind_of_steps member)
  refine ⟨?_, ?_, ?_⟩
  · simp [Graph.ofKind, graphWith, others, Node.entry, Node.terminal]
  · simp [Graph.ofKind, graphWith, others, Node.entry, Node.terminal]
  · simp [Graph.ofKind, graphWith, own, Node.entry, Node.terminal]

theorem coherent_graphWith {document : Document} {labels : Table Text}
    (read : document.conditions = .ok labels) (groups : Int) :
    (document.graphWith labels groups).Coherent := by
  obtain ⟨entry, terminal, _⟩ := ofKind_graphWith document labels groups
  constructor
  · rw [entry]
    rfl
  · rw [terminal]
    rfl
  · rw [nodeIds_graphWith]
    exact nodup_stepIds _
  · exact nodup_edgesFrom document 0 document.edges
  · intro edge member
    obtain ⟨source, _, _, _, same, _⟩ := ends_of_edgesFrom member
    rw [same]
    exact resolve_mem document labels groups source
  · intro edge member
    obtain ⟨_, _, target, _, _, same⟩ := ends_of_edgesFrom member
    rw [same]
    exact resolve_mem document labels groups target
  · intro id member
    rcases keys_of_conditionsFrom read member with known | ⟨name, rfl⟩
    · exact absurd known List.not_mem_nil
    · exact resolve_mem document labels groups name

end Workflow.Spec.Document
