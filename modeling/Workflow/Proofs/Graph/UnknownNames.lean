import Workflow.Proofs.Graph.Correspondence

/-! Names that no node bears lead to the terminal and are reported. They do not hinder a specification
from having a graph, except that groups from several such names then meet in one node, where only one
condition can be kept. -/

namespace Workflow.Spec

def Entry.condition? : Entry → Option Text
  | .direct .. => none
  | .branch _ condition _ => some condition

namespace Document

variable {document : Document} {name : Text}

/-- Groups have one condition wherever their sources are the same, in the given sense. -/
def Agree (document : Document) (same : Text → Text → Prop) : Prop :=
  ∀ entry ∈ document.edges, ∀ other ∈ document.edges, same entry.source other.source →
    ∀ first ∈ entry.condition?, ∀ second ∈ other.condition?, first = second

instance (document : Document) (same : Text → Text → Prop) [DecidableRel same] :
    Decidable (document.Agree same) :=
  inferInstanceAs (Decidable (∀ entry ∈ document.edges, ∀ other ∈ document.edges,
    same entry.source other.source →
      ∀ first ∈ entry.condition?, ∀ second ∈ other.condition?, first = second))

/-- No condition has the form of a generic label with a number that is too long. -/
def Countable (document : Document) : Prop :=
  ∀ entry ∈ document.edges, ∀ condition ∈ entry.condition?, IsCountable condition

instance (document : Document) : Decidable document.Countable :=
  inferInstanceAs (Decidable (∀ entry ∈ document.edges, ∀ condition ∈ entry.condition?,
    IsCountable condition))

/-- The names that lead to the terminal: its own, and those that nothing bears. -/
def Ends (document : Document) (name : Text) : Prop := name = endName ∨ ¬ document.Knows name

instance (document : Document) (name : Text) : Decidable (document.Ends name) :=
  inferInstanceAs (Decidable (name = endName ∨ ¬ document.Knows name))

theorem ends_iff : document.Ends name ↔ document.Leads name Node.terminal.id := by
  constructor
  · rintro (rfl | unknown)
    · exact .stop
    · exact .unknown unknown
  · intro leads
    by_cases known : document.Knows name
    · have stop := (leads_iff.mp leads).trans (resolve_endName document).symm
      exact .inl (resolve_injective known (.inr (.inl rfl)) stop)
    · exact .inr known

theorem agree_nodes_iff (names : document.Agree Eq) :
    (document.Agree fun first second => document.resolve first = document.resolve second) ↔
      document.Agree fun first second => document.Ends first ∧ document.Ends second := by
  constructor
  · intro agree entry member other inside ends
    have first := leads_iff.mp (ends_iff.mp ends.1)
    have second := leads_iff.mp (ends_iff.mp ends.2)
    exact agree entry member other inside (first.trans second.symm)
  · intro agree entry member other inside same
    by_cases known : document.Knows entry.source ∧ document.Knows other.source
    · exact names entry member other inside (resolve_injective known.1 known.2 same)
    · have terminal : document.resolve entry.source = Node.terminal.id := by
        rcases not_and_or.mp known with unknown | unknown
        · exact leads_iff.mp (.unknown unknown)
        · exact same.trans (leads_iff.mp (.unknown unknown))
      refine agree entry member other inside ⟨ends_iff.mpr (leads_iff.mpr terminal), ?_⟩
      exact ends_iff.mpr (leads_iff.mpr (same.symm.trans terminal))

theorem conditions_eq_ok_iff :
    (∃ labels, document.conditions = .ok labels) ↔
      document.Agree fun first second => document.resolve first = document.resolve second := by
  rw [conditions, conditionsFrom_eq_ok_iff]
  constructor
  · rintro ⟨label, _, own⟩ entry member other inside same first here second there
    cases entry with
    | direct _ _ => exact absurd here (by simp [Entry.condition?])
    | branch source condition paths =>
        cases other with
        | direct _ _ => exact absurd there (by simp [Entry.condition?])
        | branch source' condition' paths' =>
            obtain rfl := Option.some.inj here
            obtain rfl := Option.some.inj there
            rw [← own _ _ _ member, ← own _ _ _ inside]
            exact congrArg label same
  · intro agree
    -- the label of a node is the condition of the first group that leads to it
    let found (id : Text) : Option Entry := document.edges.find? fun entry =>
      document.resolve entry.source = id ∧ entry.condition?.isSome
    refine ⟨fun id => ((found id).bind Entry.condition?).getD "", Table.agrees_nil _, ?_⟩
    intro source condition paths member
    cases here : found (document.resolve source) with
    | none =>
        have absent := List.find?_eq_none.mp here _ member
        simp [Entry.source, Entry.condition?] at absent
    | some entry =>
        have inside := List.mem_of_find?_eq_some here
        have fits := List.find?_some here
        simp only [decide_eq_true_eq] at fits
        obtain ⟨first, held⟩ := Option.isSome_iff_exists.mp fits.2
        dsimp only
        rw [here, Option.bind_some, held, Option.getD_some]
        exact agree entry inside _ member fits.1 first held condition rfl

theorem countable_labels_iff {labels : Table Text} (read : document.conditions = .ok labels) :
    (∃ groups, greatestGeneric (labels.map Prod.snd) = .ok groups) ↔ document.Countable := by
  rw [greatestGeneric_eq_ok_iff]
  constructor
  · intro countable entry member condition held
    cases entry with
    | direct _ _ => exact absurd held (by simp [Entry.condition?])
    | branch source own paths =>
        obtain rfl := Option.some.inj held
        exact countable _ ((mem_conditionsFrom read).mpr (.inr ⟨source, paths, member⟩))
  · intro countable condition held
    rcases (mem_conditionsFrom read).mp held with impossible | ⟨source, paths, member⟩
    · exact absurd impossible List.not_mem_nil
    · exact countable _ member condition rfl

theorem toGraph_eq_ok_iff :
    (∃ decoded, document.toGraph = .ok decoded) ↔
      (document.Agree fun first second => document.resolve first = document.resolve second) ∧
        document.Countable := by
  rw [← conditions_eq_ok_iff]
  constructor
  · rintro ⟨decoded, found⟩
    obtain ⟨labels, groups, read, counted, _⟩ := parts_of_toGraph found
    exact ⟨⟨labels, read⟩, (countable_labels_iff read).mp ⟨groups, counted⟩⟩
  · rintro ⟨⟨labels, read⟩, countable⟩
    obtain ⟨groups, counted⟩ := (countable_labels_iff read).mpr countable
    exact ⟨_, toGraph_of_parts read counted⟩

/-- The condition that a node has from before, or from one of the entries. -/
def Given (document : Document) (labels : Table Text) (entries : List Entry) (id condition : Text) :
    Prop :=
  labels.get? id = some condition ∨
    ∃ source paths, .branch source condition paths ∈ entries ∧ document.resolve source = id

theorem Given.cons {labels : Table Text} {entries : List Entry} {id condition : Text}
    (given : document.Given labels entries id condition) (entry : Entry) :
    document.Given labels (entry :: entries) id condition := by
  rcases given with before | ⟨source, paths, member, led⟩
  · exact .inl before
  · exact .inr ⟨source, paths, List.mem_cons_of_mem _ member, led⟩

theorem conflict_of_conditionsFrom {labels : Table Text} {index : Nat} {entries : List Entry}
    {fault : ReadFault} (failed : document.conditionsFrom labels index entries = .error fault) :
    ∃ place source condition previous paths, fault = .conflict place source condition previous ∧
      .branch source condition paths ∈ entries ∧ previous ≠ condition ∧
      document.Given labels entries (document.resolve source) previous := by
  induction entries generalizing labels index with
  | nil => exact absurd failed (by simp [conditionsFrom])
  | cons entry rest ih =>
      cases entry with
      | direct first last =>
          obtain ⟨place, source, condition, previous, paths, same, member, other, given⟩ := ih failed
          exact ⟨place, source, condition, previous, paths, same, List.mem_cons_of_mem _ member, other,
            given.cons _⟩
      | branch first own targets =>
          rw [conditionsFrom] at failed
          split at failed
          · obtain ⟨place, source, condition, previous, paths, same, member, other, given⟩ := ih failed
            refine ⟨place, source, condition, previous, paths, same, List.mem_cons_of_mem _ member,
              other, ?_⟩
            rcases given with before | later
            · by_cases here : document.resolve source = document.resolve first
              · rw [here, Table.get?_put_self] at before
                obtain rfl := Option.some.inj before
                exact .inr ⟨first, targets, List.mem_cons_self, here.symm⟩
              · rw [Table.get?_put_of_ne here] at before
                exact .inl before
            · exact Given.cons (.inr later) _
          · rename_i held known
            split at failed
            · obtain ⟨place, source, condition, previous, paths, same, member, other, given⟩ := ih failed
              exact ⟨place, source, condition, previous, paths, same, List.mem_cons_of_mem _ member,
                other, given.cons _⟩
            · rename_i different
              obtain rfl := Except.error.inj failed
              exact ⟨index, first, own, held, targets, rfl, List.mem_cons_self, different, .inl known⟩

/-- If no name is given two conditions, the groups that are refused are those from names that lead to
the terminal. -/
theorem conflict_of_toGraph (names : document.Agree Eq) (countable : document.Countable)
    {fault : ReadFault} (failed : document.toGraph = .error fault) :
    ∃ index source condition previous, fault = .conflict index source condition previous ∧
      document.Ends source := by
  cases read : document.conditions with
  | ok labels =>
      obtain ⟨groups, counted⟩ := (countable_labels_iff read).mpr countable
      exact absurd ((toGraph_of_parts read counted).symm.trans failed) (by simp)
  | error first =>
      have same : fault = first := by
        simp only [toGraph, read, bind, Except.bind, Except.error.injEq] at failed
        exact failed.symm
      obtain ⟨index, source, condition, previous, paths, conflict, member, different, given⟩ :=
        conflict_of_conditionsFrom read
      refine ⟨index, source, condition, previous, same.trans conflict, ?_⟩
      rcases given with impossible | ⟨other, others, inside, led⟩
      · cases impossible
      · -- two known names that lead to one node are one name, which has one condition
        have apart : other ≠ source := fun equal =>
          different (names _ inside _ member equal previous rfl condition rfl)
        by_cases known : document.Knows other ∧ document.Knows source
        · exact absurd (resolve_injective known.1 known.2 led) apart
        · rcases not_and_or.mp known with unknown | unknown
          · exact ends_iff.mpr (leads_iff.mpr (led.symm.trans (leads_iff.mp (.unknown unknown))))
          · exact .inr unknown

/-- An edge that goes to the terminal wherever it was asked for with a name that nothing bears. -/
structure Routes (document : Document) (request : Request) (edge : Edge) : Prop where
  source : ¬ document.Knows request.source → edge.source = Node.terminal.id
  target : ¬ document.Knows request.target → edge.target = Node.terminal.id

theorem routes_edgesFrom (document : Document) :
    List.Forall₂ document.Routes (requestsFrom 0 document.edges) (document.edgesFrom 0 document.edges) := by
  refine (answers_edgesFrom document 0 document.edges).imp fun request edge answers => ⟨?_, ?_⟩
  · intro unknown
    exact (leads_iff.mp answers.source).symm.trans (leads_iff.mp (.unknown unknown))
  · intro unknown
    exact (leads_iff.mp answers.target).symm.trans (leads_iff.mp (.unknown unknown))

/-- If no name is given two conditions, a specification has a graph just if the groups from all names
that lead to the terminal have one condition. Unknown names are then routed to the terminal and
reported; otherwise such a group is refused. -/
theorem unknown_names_tolerated (names : document.Agree Eq) (countable : document.Countable) :
    ((∃ decoded, document.toGraph = .ok decoded) ↔
        document.Agree fun first second => document.Ends first ∧ document.Ends second) ∧
      (∀ decoded, document.toGraph = .ok decoded →
        List.Forall₂ document.Routes (requestsFrom 0 document.edges) decoded.graph.edges ∧
          decoded.unresolved = document.unknownNames) ∧
      ∀ fault, document.toGraph = .error fault →
        ∃ index source condition previous, fault = .conflict index source condition previous ∧
          document.Ends source := by
  refine ⟨?_, ?_, fun fault failed => conflict_of_toGraph names countable failed⟩
  · rw [toGraph_eq_ok_iff, agree_nodes_iff names]
    exact and_iff_left countable
  · intro decoded found
    obtain ⟨labels, groups, _, _, same⟩ := parts_of_toGraph found
    refine ⟨?_, (unresolved_of_toGraph found).2.1⟩
    rw [same]
    exact routes_edgesFrom document

/-- Unknown names at both ends of edges of both kinds, with one condition for those that groups leave. -/
def strays : Document where
  config := .standard
  nodes := ["plan"]
  edges := [.branch "ghost" "left" ["plan", "wraith"], .direct "phantom" "ghost",
    .branch "plan" "right" ["ghost"], .branch "phantom" "left" ["__start__"],
    .branch "__end__" "left" []]

theorem unknown_names_tolerated_shared :
    strays.Agree Eq ∧ strays.Countable ∧
      (∃ decoded, strays.toGraph = .ok decoded ∧
        List.Forall₂ strays.Routes (requestsFrom 0 strays.edges) decoded.graph.edges ∧
        decoded.unresolved = ["ghost", "wraith", "phantom", "ghost", "ghost", "phantom"]) := by
  have names : strays.Agree Eq := by decide +kernel
  have countable : strays.Countable := by decide +kernel
  obtain ⟨returns, routed, _⟩ := unknown_names_tolerated names countable
  obtain ⟨decoded, found⟩ := returns.mpr (by decide +kernel)
  obtain ⟨edges, unresolved⟩ := routed decoded found
  have listed : strays.unknownNames =
      ["ghost", "wraith", "phantom", "ghost", "ghost", "phantom"] := by decide +kernel
  exact ⟨names, countable, decoded, found, edges, unresolved.trans listed⟩

/-- Groups from two unknown names meet in the terminal, and the second is refused for a condition that
its own name was never given. -/
theorem unknown_names_clash :
    ¬∀ document : Document, document.Agree Eq → document.Countable →
      ∃ decoded, document.toGraph = .ok decoded := by
  intro all
  let document : Document :=
    { config := .standard
      nodes := []
      edges := [.branch "ghost" "left" ["__end__"], .branch "phantom" "right" ["__start__"]] }
  have names : document.Agree Eq := by decide +kernel
  have countable : document.Countable := by decide +kernel
  have refused : document.toGraph = .error (.conflict 1 "phantom" "right" "left") := by decide +kernel
  obtain ⟨decoded, found⟩ := all document names countable
  exact absurd (refused.symm.trans found) (by simp)

end Document

end Workflow.Spec
