import Workflow.Yaml.Load
import Workflow.Proofs.Yaml.TokenLength

/-! Where the texts in nodes come from: each is the text of a scalar token, or it is empty because
the scalar was left out. -/

namespace Workflow.Yaml

theorem bind_eq_ok {σ ε α β : Type} {first : StateT σ (Except ε) β} {next : β → StateT σ (Except ε) α}
    {state after : σ} {value : α} :
    (first >>= next) state = .ok (value, after) ↔
      ∃ inner between, first state = .ok (inner, between) ∧ next inner between = .ok (value, after) := by
  change (first state >>= fun pair => next pair.1 pair.2) = _ ↔ _
  cases first state with
  | error fault => simp [Bind.bind, Except.bind]
  | ok pair =>
      constructor
      · intro found
        exact ⟨pair.1, pair.2, rfl, found⟩
      · rintro ⟨inner, between, same, found⟩
        obtain rfl := Except.ok.inj same
        exact found

theorem lift_eq_ok {σ ε α : Type} {inner : Except ε α} {state after : σ} {value : α} :
    (liftM inner : StateT σ (Except ε) α) state = .ok (value, after) ↔
      inner = .ok value ∧ state = after := by
  cases inner with
  | error fault => simp [liftM, monadLift, MonadLift.monadLift, StateT.lift, Bind.bind, Except.bind]
  | ok known =>
      simp [liftM, monadLift, MonadLift.monadLift, StateT.lift, Bind.bind, Except.bind,
        Pure.pure, Except.pure]

/-- All texts of scalars in a node have a property. -/
inductive Node.All (p : Text → Prop) : Node → Prop
  | scalar {id : Nat} {tag : Tag} {text : Text} (holds : p text) : All p (.scalar id tag text)
  | sequence {id : Nat} {tag : Tag} {items : List Node} (holds : ∀ item ∈ items, All p item) :
      All p (.sequence id tag items)
  | mapping {id : Nat} {tag : Tag} {entries : List (Node × Node)}
      (keys : ∀ entry ∈ entries, All p entry.1) (values : ∀ entry ∈ entries, All p entry.2) :
      All p (.mapping id tag entries)
  | again {id : Nat} : All p (.again id)

namespace Reading

/-- What holds of the reader before a reading holds after it, and its result has a property. -/
def Keeps {α : Type} (invariant : Reader → Prop) (post : α → Prop) (reading : Reading α) : Prop :=
  ∀ reader, invariant reader → ∀ value after, reading reader = .ok (value, after) →
    invariant after ∧ post value

section Keeps

variable {α β : Type} {invariant : Reader → Prop} {post : α → Prop}

theorem Keeps.bind {middle : β → Prop} {first : Reading β} {next : β → Reading α}
    (before : Keeps invariant middle first)
    (further : ∀ value, middle value → Keeps invariant post (next value)) :
    Keeps invariant post (first >>= next) := by
  intro reader holds value after found
  obtain ⟨inner, between, read, found⟩ := bind_eq_ok.mp found
  obtain ⟨kept, known⟩ := before reader holds inner between read
  exact further inner known between kept value after found

theorem Keeps.pure {value : α} (known : post value) :
    Keeps invariant post (Pure.pure value : Reading α) := by
  intro reader holds result after found
  obtain ⟨rfl, rfl⟩ := Prod.mk.inj (Except.ok.inj found)
  exact ⟨holds, known⟩

theorem Keeps.throw (fault : Error) : Keeps invariant post (throw fault : Reading α) := by
  intro reader holds value after found
  exact absurd found (by simp [MonadExcept.throw, throwThe, MonadExceptOf.throw, StateT.lift,
    Bind.bind, Except.bind])

theorem Keeps.fail : Keeps invariant post (fail : Reading α) := .throw .malformed

end Keeps

variable {p : Text → Prop}

/-- Every text that the reader can still meet has a property. -/
structure Texts (p : Text → Prop) (reader : Reader) : Prop where
  tokens : ∀ content plain, Token.scalar content plain ∈ reader.tokens → p content
  anchors : ∀ entry ∈ reader.anchors, Node.All p entry.2

def TokenText (p : Text → Prop) (token? : Option Token) : Prop :=
  ∀ content plain, token? = some (.scalar content plain) → p content

theorem keeps_peek : Keeps (Texts p) (TokenText p) peek := by
  intro reader holds token? after found
  rw [peek] at found
  split at found
  · rename_i token rest _ same
    obtain ⟨rfl, rfl⟩ := Prod.mk.inj (Except.ok.inj found)
    refine ⟨holds, ?_⟩
    intro content plain known
    obtain rfl := Option.some.inj known
    exact holds.tokens content plain (by rw [same]; exact List.mem_cons_self)
  · exact absurd found (by simp)
  · obtain ⟨rfl, rfl⟩ := Prod.mk.inj (Except.ok.inj found)
    exact ⟨holds, fun _ _ known => absurd known (by simp)⟩

theorem keeps_modify {change : Reader → Reader} (kept : ∀ reader, Texts p reader → Texts p (change reader)) :
    Keeps (Texts p) (fun _ => True) (modify change : Reading Unit) := by
  intro reader holds value after found
  obtain ⟨rfl, rfl⟩ := Prod.mk.inj (Except.ok.inj found)
  exact ⟨kept reader holds, trivial⟩

theorem keeps_drop : Keeps (Texts p) (fun _ => True) drop :=
  keeps_modify fun _ holds =>
    ⟨fun content plain member => holds.tokens content plain (List.mem_of_mem_drop member),
      holds.anchors⟩

theorem keeps_get : Keeps (Texts p) (Texts p) (get : Reading Reader) := by
  intro reader holds value after found
  obtain ⟨rfl, rfl⟩ := Prod.mk.inj (Except.ok.inj found)
  exact ⟨holds, holds⟩

theorem keeps_freshId : Keeps (Texts p) (fun _ => True) freshId := by
  intro reader holds value after found
  obtain ⟨rfl, rfl⟩ := Prod.mk.inj (Except.ok.inj found)
  exact ⟨⟨holds.tokens, holds.anchors⟩, trivial⟩

theorem keeps_peekIn (tokens : List Token) : Keeps (Texts p) (fun _ => True) (peekIn tokens) := by
  apply keeps_peek.bind
  intro token? _
  split <;> exact .pure trivial

theorem keeps_accept (token : Token) : Keeps (Texts p) (fun _ => True) (accept token) := by
  apply (keeps_peekIn [token]).bind
  intro found _
  split
  · exact keeps_drop.bind fun _ _ => .pure trivial
  · exact .pure trivial

theorem keeps_anchorName? : Keeps (Texts p) (fun _ => True) anchorName? := by
  apply keeps_peek.bind
  intro token? _
  split
  · exact keeps_drop.bind fun _ _ => .pure trivial
  · exact .pure trivial

theorem keeps_tagParts? : Keeps (Texts p) (fun _ => True) tagParts? := by
  apply keeps_peek.bind
  intro token? _
  split
  · exact keeps_drop.bind fun _ _ => .pure trivial
  · exact .pure trivial

theorem keeps_expand (parts : Option (Option Text × Text)) :
    Keeps (Texts p) (fun _ => True) (expand parts) := by
  unfold expand
  split
  · exact .pure trivial
  · exact .pure trivial
  · apply keeps_get.bind
    intro reader _
    split
    · exact .pure trivial
    · exact .fail

theorem keeps_properties : Keeps (Texts p) (fun _ => True) properties := by
  apply keeps_anchorName?.bind
  intro name _
  split
  · exact keeps_tagParts?.bind fun parts _ => (keeps_expand parts).bind fun _ _ => .pure trivial
  · apply keeps_tagParts?.bind
    intro parts _
    split
    · exact .pure trivial
    · exact keeps_anchorName?.bind fun _ _ => (keeps_expand _).bind fun _ _ => .pure trivial

theorem all_of_put {table : Table Node} {name : Text} {node : Node} (all : Node.All p node)
    (holds : ∀ entry ∈ table, Node.All p entry.2) :
    ∀ entry ∈ table.put name node, Node.All p entry.2 := by
  induction table with
  | nil =>
      intro entry member
      rw [List.mem_singleton.mp member]
      exact all
  | cons head tail ih =>
      obtain ⟨known, old⟩ := head
      have others := ih fun entry member => holds entry (List.mem_cons_of_mem _ member)
      intro entry member
      rw [Table.put] at member
      split at member
      · rcases List.mem_cons.mp member with rfl | member
        · exact all
        · exact holds entry (List.mem_cons_of_mem _ member)
      · rcases List.mem_cons.mp member with rfl | member
        · exact holds _ List.mem_cons_self
        · exact others entry member

theorem all_of_get? {table : Table Node} {name : Text} {node : Node}
    (holds : ∀ entry ∈ table, Node.All p entry.2) (found : table.get? name = some node) :
    Node.All p node := by
  induction table with
  | nil => exact absurd found (by simp [Table.get?])
  | cons head tail ih =>
      obtain ⟨known, old⟩ := head
      rw [Table.get?] at found
      split at found
      · obtain rfl := Option.some.inj found
        exact holds _ List.mem_cons_self
      · exact ih (fun entry member => holds entry (List.mem_cons_of_mem _ member)) found

theorem keeps_declare (anchor : Option Text) {node : Node} (all : Node.All p node) :
    Keeps (Texts p) (fun _ => True) (declare anchor node) := by
  unfold declare
  split
  · exact .pure trivial
  · apply keeps_get.bind
    intro reader _
    split
    · exact .fail
    · exact keeps_modify fun _ holds => ⟨holds.tokens, all_of_put all holds.anchors⟩

theorem keeps_aliased (name : Text) : Keeps (Texts p) (Node.All p) (aliased name) := by
  apply keeps_get.bind
  intro reader holds
  split
  · rename_i node found
    exact .pure (all_of_get? holds.anchors found)
  · exact .fail

theorem keeps_scalar (properties : Properties) (plain : Bool) {text : Text} (holds : p text) :
    Keeps (Texts p) (Node.All p) (scalar properties plain text) :=
  keeps_freshId.bind fun _ _ => (keeps_declare _ (.scalar holds)).bind fun _ _ => .pure (.scalar holds)

theorem keeps_missing (empty : p "") : Keeps (Texts p) (Node.All p) missing :=
  keeps_freshId.bind fun _ _ => .pure (.scalar empty)

theorem keeps_leave : Keeps (Texts p) (fun _ => True) leave :=
  keeps_modify fun _ holds => ⟨holds.tokens, holds.anchors⟩

theorem keeps_separator (first : Bool) : Keeps (Texts p) (fun _ => True) (separator first) := by
  rw [separator]
  split
  · exact .pure trivial
  · apply (keeps_accept _).bind
    intro found _
    split
    · exact .pure trivial
    · exact .fail

theorem all_of_entries {id : Nat} {tag : Tag} {entries : List (Node × Node)}
    (all : ∀ entry ∈ entries, Node.All p entry.1 ∧ Node.All p entry.2) :
    Node.All p (.mapping id tag entries) :=
  .mapping (fun entry member => (all entry member).1) (fun entry member => (all entry member).2)

theorem all_cons {item : Node} {items : List Node} (first : Node.All p item)
    (others : ∀ item ∈ items, Node.All p item) : ∀ other ∈ item :: items, Node.All p other := by
  intro other member
  rcases List.mem_cons.mp member with rfl | member
  · exact first
  · exact others other member

theorem all_cons_entry {key value : Node} {entries : List (Node × Node)} (first : Node.All p key)
    (second : Node.All p value)
    (others : ∀ entry ∈ entries, Node.All p entry.1 ∧ Node.All p entry.2) :
    ∀ entry ∈ (key, value) :: entries, Node.All p entry.1 ∧ Node.All p entry.2 := by
  intro entry member
  rcases List.mem_cons.mp member with rfl | member
  · exact ⟨first, second⟩
  · exact others entry member

theorem keeps_directives (versioned : Bool) (handles : Table Text) (fuel : Nat) :
    Keeps (Texts p) (fun _ => True) (directives versioned handles fuel) := by
  induction fuel generalizing versioned handles with
  | zero => exact .fail
  | succ fuel ih =>
      rw [directives]
      apply keeps_peek.bind
      intro token? _
      split
      · refine keeps_drop.bind fun _ _ => ?_
        split
        · exact .fail
        · exact ih true handles
      · refine keeps_drop.bind fun _ _ => ?_
        split
        · exact .fail
        · exact ih versioned _
      · exact keeps_drop.bind fun _ _ => ih versioned handles
      · exact .pure trivial

theorem keeps_documentStart (fuel : Nat) :
    Keeps (Texts p) (fun _ => True) (documentStart fuel) := by
  refine (keeps_directives false [] fuel).bind fun given _ => ?_
  refine Keeps.bind (keeps_modify fun _ holds => ⟨holds.tokens, holds.anchors⟩) fun _ _ => ?_
  apply (keeps_accept _).bind
  intro found _
  split
  · exact .pure trivial
  · exact .fail

theorem keeps_dropEnds (fuel : Nat) : Keeps (Texts p) (fun _ => True) (dropEnds fuel) := by
  induction fuel with
  | zero => exact .pure trivial
  | succ fuel ih =>
      rw [dropEnds]
      apply (keeps_accept _).bind
      intro found _
      split
      · exact ih
      · exact .pure trivial

def ending (root : Node) (fuel : Nat) : Reading (Option Document) := do
  dropEnds fuel
  match ← peek with
  | none => return some ⟨root, (← get).count⟩
  | some _ =>
    documentStart fuel
    fail

theorem keeps_ending {root : Node} (all : Node.All p root) (fuel : Nat) :
    Keeps (Texts p) (fun document? => ∀ document, document? = some document → Node.All p document.root)
      (ending root fuel) := by
  refine (keeps_dropEnds fuel).bind fun _ _ => keeps_peek.bind ?_
  intro next _
  split
  · refine keeps_get.bind fun reader _ => .pure ?_
    intro document same
    obtain rfl := Option.some.inj same
    exact all
  · exact (keeps_documentStart fuel).bind fun _ _ => .fail

variable [Host]

theorem keeps_enter : Keeps (Texts p) (fun _ => True) enter := by
  apply keeps_get.bind
  intro reader _
  split
  · exact .throw .tooDeep
  · exact keeps_modify fun _ holds => ⟨holds.tokens, holds.anchors⟩

theorem keeps_collection (anchor : Option Text) {body : Nat → Reading Node}
    (inner : ∀ id, Keeps (Texts p) (Node.All p) (body id)) :
    Keeps (Texts p) (Node.All p) (collection anchor body) :=
  keeps_freshId.bind fun id _ => (keeps_declare anchor .again).bind fun _ _ =>
    keeps_enter.bind fun _ _ => (inner id).bind fun _ all => keeps_leave.bind fun _ _ => .pure all

/-- What all readings of a given fuel keep. -/
structure KeepsTexts (p : Text → Prop) (fuel : Nat) : Prop where
  node : ∀ block indentless, Keeps (Texts p) (Node.All p) (node block indentless fuel)
  blockItems : Keeps (Texts p) (∀ item ∈ ·, Node.All p item) (blockItems fuel)
  indentlessItems : Keeps (Texts p) (∀ item ∈ ·, Node.All p item) (indentlessItems fuel)
  blockEntries : Keeps (Texts p) (∀ entry ∈ ·, Node.All p entry.1 ∧ Node.All p entry.2)
    (blockEntries fuel)
  flowItems : ∀ first, Keeps (Texts p) (∀ item ∈ ·, Node.All p item) (flowItems first fuel)
  flowEntries : ∀ first, Keeps (Texts p) (∀ entry ∈ ·, Node.All p entry.1 ∧ Node.All p entry.2)
    (flowEntries first fuel)
  part : ∀ ends block indentless, Keeps (Texts p) (Node.All p) (part ends block indentless fuel)

variable {fuel : Nat}

theorem keeps_node (empty : p "") (ih : KeepsTexts p fuel) (block indentless : Bool) :
    Keeps (Texts p) (Node.All p) (Reading.node block indentless (fuel + 1)) := by
  rw [Reading.node]
  apply keeps_peek.bind
  intro token? _
  split
  · exact keeps_drop.bind fun _ _ => keeps_aliased _
  · apply keeps_properties.bind
    intro found _
    apply keeps_peek.bind
    intro next known
    split
    · rename_i text plain
      exact keeps_drop.bind fun _ _ => keeps_scalar found plain (known text plain rfl)
    · exact keeps_collection _ fun id => keeps_drop.bind fun _ _ =>
        (ih.flowItems true).bind fun items all => .pure (.sequence all)
    · exact keeps_collection _ fun id => keeps_drop.bind fun _ _ =>
        (ih.flowEntries true).bind fun entries all => .pure (all_of_entries all)
    · split
      · exact keeps_collection _ fun id =>
          ih.indentlessItems.bind fun items all => .pure (.sequence all)
      · split
        · exact keeps_collection _ fun id => keeps_drop.bind fun _ _ =>
            ih.blockItems.bind fun items all => .pure (.sequence all)
        · split
          · exact keeps_collection _ fun id => keeps_drop.bind fun _ _ =>
              ih.blockEntries.bind fun entries all => .pure (all_of_entries all)
          · split
            · exact keeps_scalar found true empty
            · exact .fail

theorem keeps_blockItems (ih : KeepsTexts p fuel) :
    Keeps (Texts p) (∀ item ∈ ·, Node.All p item) (Reading.blockItems (fuel + 1)) := by
  rw [Reading.blockItems]
  apply (keeps_accept _).bind
  intro found _
  split
  · exact (ih.part _ _ _).bind fun item first => ih.blockItems.bind fun items others =>
      .pure (all_cons first others)
  · apply (keeps_accept _).bind
    intro found _
    split
    · exact .pure (by simp)
    · exact .fail

theorem keeps_indentlessItems (ih : KeepsTexts p fuel) :
    Keeps (Texts p) (∀ item ∈ ·, Node.All p item) (Reading.indentlessItems (fuel + 1)) := by
  rw [Reading.indentlessItems]
  apply (keeps_accept _).bind
  intro found _
  split
  · exact (ih.part _ _ _).bind fun item first => ih.indentlessItems.bind fun items others =>
      .pure (all_cons first others)
  · exact .pure (by simp)

theorem keeps_blockEntries (empty : p "") (ih : KeepsTexts p fuel) :
    Keeps (Texts p) (∀ entry ∈ ·, Node.All p entry.1 ∧ Node.All p entry.2)
      (Reading.blockEntries (fuel + 1)) := by
  rw [Reading.blockEntries]
  apply (keeps_accept _).bind
  intro found _
  split
  · apply (ih.part _ _ _).bind
    intro key first
    apply (keeps_accept _).bind
    intro given _
    split
    · exact (ih.part _ _ _).bind fun value second => ih.blockEntries.bind fun _ others =>
        .pure (all_cons_entry first second others)
    · exact (keeps_missing empty).bind fun value second => ih.blockEntries.bind fun _ others =>
        .pure (all_cons_entry first second others)
  · apply (keeps_accept _).bind
    intro found _
    split
    · exact .pure (by simp)
    · exact .fail

theorem keeps_flowItems (empty : p "") (ih : KeepsTexts p fuel) (start : Bool) :
    Keeps (Texts p) (∀ item ∈ ·, Node.All p item) (Reading.flowItems start (fuel + 1)) := by
  have further {item : Node} (first : Node.All p item) :
      Keeps (Texts p) (∀ item ∈ ·, Node.All p item)
        (do return item :: (← Reading.flowItems false fuel)) :=
    (ih.flowItems false).bind fun _ others => .pure (all_cons first others)
  rw [Reading.flowItems]
  apply (keeps_accept _).bind
  intro ended _
  split
  · exact .pure (by simp)
  · refine (keeps_separator start).bind fun _ _ => (keeps_peekIn _).bind ?_
    intro isKey _
    split
    · refine Keeps.bind (keeps_collection none fun id => ?_) fun _ first => further first
      refine keeps_drop.bind fun _ _ => (ih.part _ _ _).bind fun key first => ?_
      have entry {value : Node} (second : Node.All p value) :
          Node.All p (.mapping id .map [(key, value)]) :=
        all_of_entries (all_cons_entry first second (by simp))
      apply (keeps_accept _).bind
      intro given _
      split
      · exact (ih.part _ _ _).bind fun _ second => .pure (entry second)
      · exact (keeps_missing empty).bind fun _ second => .pure (entry second)
    · apply (keeps_accept _).bind
      intro ended _
      split
      · exact .pure (by simp)
      · exact (ih.node false false).bind fun _ first => further first

theorem keeps_flowEntries (empty : p "") (ih : KeepsTexts p fuel) (start : Bool) :
    Keeps (Texts p) (∀ entry ∈ ·, Node.All p entry.1 ∧ Node.All p entry.2)
      (Reading.flowEntries start (fuel + 1)) := by
  have further {key value : Node} (first : Node.All p key) (second : Node.All p value) :
      Keeps (Texts p) (∀ entry ∈ ·, Node.All p entry.1 ∧ Node.All p entry.2)
        (do return (key, value) :: (← Reading.flowEntries false fuel)) :=
    (ih.flowEntries false).bind fun _ others => .pure (all_cons_entry first second others)
  rw [Reading.flowEntries]
  apply (keeps_accept _).bind
  intro ended _
  split
  · exact .pure (by simp)
  · refine (keeps_separator start).bind fun _ _ => (keeps_accept _).bind ?_
    intro isKey _
    split
    · refine (ih.part _ _ _).bind fun key first => (keeps_accept _).bind ?_
      intro given _
      split
      · exact (ih.part _ _ _).bind fun _ second => further first second
      · exact (keeps_missing empty).bind fun _ second => further first second
    · apply (keeps_accept _).bind
      intro ended _
      split
      · exact .pure (by simp)
      · exact (ih.node false false).bind fun key first =>
          (keeps_missing empty).bind fun _ second => further first second

theorem keeps_part (empty : p "") (ih : KeepsTexts p fuel) (ends : List Token) (block indentless : Bool) :
    Keeps (Texts p) (Node.All p) (Reading.part ends block indentless (fuel + 1)) := by
  rw [Reading.part]
  apply (keeps_peekIn _).bind
  intro found _
  split
  · exact keeps_missing empty
  · exact ih.node block indentless

theorem keepsTexts (empty : p "") (fuel : Nat) : KeepsTexts p fuel := by
  induction fuel with
  | zero =>
      constructor <;> intros <;> exact .fail
  | succ fuel ih =>
      exact ⟨keeps_node empty ih, keeps_blockItems ih, keeps_indentlessItems ih,
        keeps_blockEntries empty ih, keeps_flowItems empty ih, keeps_flowEntries empty ih,
        keeps_part empty ih⟩

theorem keeps_content (empty : p "") (fuel : Nat) :
    Keeps (Texts p) (Node.All p) (content fuel) := by
  apply keeps_peek.bind
  intro token? _
  split
  · exact keeps_missing empty
  · split
    · exact keeps_missing empty
    · exact (keepsTexts empty fuel).node true false

theorem keeps_document (empty : p "") (fuel : Nat) :
    Keeps (Texts p) (fun document? => ∀ document, document? = some document → Node.All p document.root)
      (document fuel) := by
  apply keeps_peek.bind
  intro token? _
  split
  · exact .pure (by simp)
  · split
    · exact (keeps_documentStart fuel).bind fun _ _ =>
        (keeps_content empty fuel).bind fun root all => keeps_ending all fuel
    · exact ((keepsTexts empty fuel).node true false).bind fun root all => keeps_ending all fuel

end Reading

theorem Document.all_of_ofTokens? [Host] {p : Text → Prop} (empty : p "") {source : Token.Stream}
    {document : Document} (holds : ∀ content plain, .scalar content plain ∈ source.tokens → p content)
    (found : Document.ofTokens? source = .ok (some document)) : document.root.All p := by
  unfold Document.ofTokens? at found
  simp only at found
  cases read : (Reading.document (4 * source.tokens.length + 4)).run
      ⟨source.tokens, source.fault, Reading.standardHandles, [], 0, 0⟩ with
  | error fault =>
      rw [read] at found
      exact absurd found (by simp [Except.map])
  | ok pair =>
      rw [read] at found
      have known := Reading.keeps_document empty _ _ ⟨holds, by simp⟩ pair.1 pair.2 read
      exact known.2 document (Except.ok.inj found)

namespace Node

variable {p : Text → Prop}

mutual

theorem all_of_find? {wanted : Nat} {node found : Node} (all : node.All p)
    (known : node.find? wanted = some found) : found.All p := by
  match node with
  | .scalar .. => exact absurd known (by simp [find?])
  | .again _ => exact absurd known (by simp [find?])
  | .sequence id tag items =>
      rw [find?] at known
      split at known
      · obtain rfl := Option.some.inj known
        exact all
      · cases all with
        | sequence holds => exact all_of_findItem? holds known
  | .mapping id tag entries =>
      rw [find?] at known
      split at known
      · obtain rfl := Option.some.inj known
        exact all
      · cases all with
        | mapping keys values => exact all_of_findField? keys values known

theorem all_of_findItem? {wanted : Nat} {items : List Node} {found : Node}
    (all : ∀ item ∈ items, item.All p) (known : findItem? wanted items = some found) :
    found.All p := by
  match items with
  | [] => exact absurd known (by simp [findItem?])
  | item :: rest =>
      rw [findItem?] at known
      rcases Option.or_eq_some_iff.mp known with first | ⟨_, others⟩
      · exact all_of_find? (all item List.mem_cons_self) first
      · exact all_of_findItem? (fun item member => all item (List.mem_cons_of_mem _ member)) others

theorem all_of_findField? {wanted : Nat} {entries : List (Node × Node)} {found : Node}
    (keys : ∀ entry ∈ entries, entry.1.All p) (values : ∀ entry ∈ entries, entry.2.All p)
    (known : findField? wanted entries = some found) : found.All p := by
  match entries with
  | [] => exact absurd known (by simp [findField?])
  | (key, value) :: rest =>
      rw [findField?] at known
      rcases Option.or_eq_some_iff.mp known with first | ⟨_, others⟩
      · rcases Option.or_eq_some_iff.mp first with inKey | ⟨_, inValue⟩
        · exact all_of_find? (keys _ List.mem_cons_self) inKey
        · exact all_of_find? (values _ List.mem_cons_self) inValue
      · exact all_of_findField? (fun entry member => keys entry (List.mem_cons_of_mem _ member))
          (fun entry member => values entry (List.mem_cons_of_mem _ member)) others

end

end Node

theorem Document.all_resolve {p : Text → Prop} {document : Document}
    (root : document.root.All p) {node : Node} (all : node.All p) :
    (document.resolve node).All p := by
  unfold Document.resolve
  split
  · rename_i id
    cases found : document.root.find? id with
    | none => exact .again
    | some target => exact Node.all_of_find? root found
  · exact all

theorem Revision.text_of_all {p : Text → Prop} {document : Document}
    (root : document.root.All p) (fuel : Nat) {node : Node} (all : node.All p) {text : Text}
    (found : (Revision.ofDocument document).text fuel node = .ok text) : p text := by
  induction fuel generalizing node with
  | zero => exact absurd found (by simp [Revision.text])
  | succ fuel ih =>
      have target := Document.all_resolve root all
      rw [Revision.text] at found
      split at found
      · rename_i same
        obtain rfl := Except.ok.inj found
        rw [Revision.ofDocument] at same
        rw [same] at target
        cases target with
        | scalar holds => exact holds
      · split at found
        · rename_i key value entry
          obtain ⟨entries, known, inside⟩ := Option.bind_eq_some_iff.mp entry
          have member := List.mem_of_find?_eq_some inside
          rw [Revision.entries?] at known
          split at known
          · rename_i id tag written same
            obtain rfl := Option.some.inj known
            change document.resolve (document.resolve node) = _ at same
            have again := Document.all_resolve root target
            rw [same] at again
            cases again with
            | mapping keys values => exact ih (values _ member) found
          · exact absurd known (by simp)
        · exact absurd found (by simp)

theorem Value.text_of_ofScalar {node : Nat} {tag : Tag} {text : Text} {value : Text}
    (found : Value.ofScalar node tag text = .ok (.text value)) :
    tag = .str ∧ value = text := by
  cases tag with
  | str => exact ⟨rfl, (Value.text.inj (Except.ok.inj found)).symm⟩
  | null => exact absurd (Except.ok.inj found) (by simp)
  | bool =>
      simp only [Value.ofScalar, Value.readTruth] at found
      split at found <;> simp at found
  | int =>
      simp only [Value.ofScalar, Value.readInt] at found
      split at found
      · exact absurd found (by simp)
      · obtain ⟨_, _, same⟩ := except_map_eq_ok found
        exact absurd same (by simp)
  | float =>
      simp only [Value.ofScalar, Value.readDouble] at found
      split at found
      · exact absurd found (by simp)
      · obtain ⟨_, _, same⟩ := except_map_eq_ok found
        split at same <;> simp at same
  | binary =>
      obtain ⟨_, _, same⟩ := except_map_eq_ok found
      exact absurd same (by simp)
  | timestamp =>
      simp only [Value.ofScalar, Value.readTimestamp] at found
      split at found
      · exact absurd found (by simp)
      · rw [Value.ofStamp] at found
        split at found
        · split at found <;> simp at found
        · simp only at found
          split at found <;> simp at found
  | _ => exact absurd found (by simp [Value.ofScalar])

theorem Assembling.text_of_value {assembly after : Assembly} {node : Node} {value : Text}
    (fresh : assembly.known = []) (found : Assembling.value node assembly = .ok (.text value, after)) :
    ∃ fuel, assembly.revision.text fuel (assembly.revision.document.resolve node) = .ok value ∧
      assembly.revision.tagOf (assembly.revision.document.resolve node) = .str := by
  rw [Assembling.value] at found
  obtain ⟨_, _, got, found⟩ := bind_eq_ok.mp found
  obtain ⟨rfl, rfl⟩ := Prod.mk.inj (Except.ok.inj got)
  simp only [fresh, List.lookup_nil] at found
  split at found
  · obtain ⟨_, _, _, found⟩ := bind_eq_ok.mp found
    obtain ⟨_, _, _, found⟩ := bind_eq_ok.mp found
    have same := (Prod.mk.inj (Except.ok.inj found)).1
    unfold reference at same
    split at same <;> simp at same
  · split at found
    · obtain ⟨read, between, made, found⟩ := bind_eq_ok.mp found
      have same : read = .text value := by
        split at found
        · exact (Prod.mk.inj (Except.ok.inj found)).1
        · obtain ⟨_, _, _, found⟩ := bind_eq_ok.mp found
          exact (Prod.mk.inj (Except.ok.inj found)).1
      rw [same] at made
      obtain ⟨kind, _⟩ := lift_eq_ok.mp made
      rw [ofText] at kind
      split at kind
      · exact absurd kind (by simp)
      · rename_i text known
        split at kind
        · exact absurd kind (by simp)
        · obtain ⟨tag, rfl⟩ := Value.text_of_ofScalar kind
          exact ⟨_, known, tag⟩
    · exact absurd found (by simp [throw, throwThe, MonadExceptOf.throw, StateT.lift, Bind.bind,
        Except.bind])

theorem Document.value_of_meaning {document : Document} {value : Value} {collections : Collections}
    (found : document.meaning = .ok (value, collections)) :
    ∃ after, Assembling.value document.root ⟨.ofDocument document, [], [], .empty⟩ =
      .ok (value, after) := by
  obtain ⟨⟨first, assembly⟩, made, pair⟩ := except_map_eq_ok found
  obtain ⟨rfl, rfl⟩ := Prod.mk.inj pair
  obtain ⟨first, between, made, further⟩ := bind_eq_ok.mp made
  obtain ⟨_, _, _, further⟩ := bind_eq_ok.mp further
  obtain ⟨_, _, _, further⟩ := bind_eq_ok.mp further
  obtain ⟨_, _, _, further⟩ := bind_eq_ok.mp further
  have same := (Prod.mk.inj (Except.ok.inj further)).1
  exact ⟨between, same ▸ made⟩

section Load

variable [Host]

/-- Where the value of a text is a text, this is the text of one of its scalars. -/
theorem scalar_of_load {text : Text} {value : Text} {collections : Collections}
    (filled : value ≠ "") (found : load text = .ok (.text value, collections)) :
    ∃ plain, .scalar value plain ∈ (Token.scan text.chars).tokens := by
  unfold load at found
  split at found
  · exact absurd found (by simp)
  split at found
  · exact absurd found (by simp)
  · exact absurd found (by simp)
  · rename_i document read
    have root : document.root.All fun content =>
        content = "" ∨ ∃ plain, .scalar content plain ∈ (Token.scan text.chars).tokens :=
      Document.all_of_ofTokens? (.inl rfl) (fun content plain member => .inr ⟨plain, member⟩) read
    obtain ⟨after, made⟩ := Document.value_of_meaning found
    obtain ⟨fuel, known, _⟩ := Assembling.text_of_value rfl made
    rcases Revision.text_of_all root fuel (Document.all_resolve root root) known with empty | member
    · exact absurd empty filled
    · exact member

theorem ofPlain_of_load {text value content : Text} {collections : Collections}
    (scanned : Token.scan text.chars = ⟨[.scalar content true], none⟩)
    (found : load text = .ok (.text value, collections)) : Tag.ofPlain content.chars = .str := by
  have read : Document.ofTokens? ⟨[.scalar content true], none⟩ =
      .ok (some ⟨.scalar 0 (Tag.ofPlain content.chars) content, 1⟩) := rfl
  unfold load at found
  split at found
  · exact absurd found (by simp)
  rw [scanned, read] at found
  obtain ⟨after, made⟩ := Document.value_of_meaning found
  obtain ⟨_, _, tag⟩ := Assembling.text_of_value rfl made
  simpa [Revision.tagOf, Revision.ofDocument, Document.resolve, Node.tag] using tag

end Load

end Workflow.Yaml
