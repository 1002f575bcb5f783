import Workflow.Yaml.Error
import Workflow.Yaml.Node.Basic

/-! Documents while they are being read. Reading the fields of a mapping merges other mappings into
it and makes its value key an ordinary text. Both changes stay, and everything that is read later
meets the mapping and the key in their new form. -/

namespace Workflow.Yaml

/-- A document with what has changed in it. -/
structure Revision where
  document : Document
  /-- The value keys that have become ordinary texts. -/
  plain : List Nat
  /-- The entries of changed mappings, the latest first. -/
  changed : List (Nat × List (Node × Node))

namespace Revision

def ofDocument (document : Document) : Revision := ⟨document, [], []⟩

def tagOf (revision : Revision) (node : Node) : Tag :=
  let node := revision.document.resolve node
  if node.tag == .value && revision.plain.contains node.id then .str else node.tag

def entriesOf (revision : Revision) (id : Nat) (written : List (Node × Node)) :
    List (Node × Node) :=
  (revision.changed.lookup id).getD written

def makePlain (key : Node) (revision : Revision) : Revision :=
  { revision with plain := key.id :: revision.plain }

def change (id : Nat) (entries : List (Node × Node)) (revision : Revision) : Revision :=
  { revision with changed := (id, entries) :: revision.changed }

def entries? (revision : Revision) (node : Node) : Option (List (Node × Node)) :=
  match revision.document.resolve node with
  | .mapping id _ written => some (revision.entriesOf id written)
  | _ => none

/-- The text of a scalar, or of the value that a mapping as a whole stands for. Going down through
more mappings than there are nodes has no end. -/
def text (revision : Revision) : Nat → Node → Except Error Text
  | 0, _ => .error .tooDeep
  | fuel + 1, node =>
    match revision.document.resolve node with
    | .scalar _ _ text => .ok text
    | node =>
      match (revision.entries? node).bind (·.find? fun (key, _) => revision.tagOf key == .value) with
      | some (_, value) => text revision fuel value
      | none => .error .malformed

/-- A way to settle the mapping of a number, given the entries it was written with. -/
abbrev Settling := Nat → List (Node × Node) → Revision → Except Error Revision

def contribution (settle : Settling) (node : Node) (revision : Revision) :
    Except Error (List (Node × Node) × Revision) :=
  match revision.document.resolve node with
  | .mapping id _ written =>
    (settle id written revision).map fun settled => (settled.entriesOf id written, settled)
  | _ => .error .malformed

/-- Mappings are settled in order, and the last one gives its entries first. -/
def contributions (settle : Settling) (gathered : List (Node × Node)) :
    List Node → Revision → Except Error (List (Node × Node) × Revision)
  | [], revision => .ok (gathered, revision)
  | node :: rest, revision =>
    match contribution settle node revision with
    | .error fault => .error fault
    | .ok (entries, revision) => contributions settle (entries ++ gathered) rest revision

/-- What is merged in under one merge key: a mapping, or those of a sequence. -/
def merged (settle : Settling) (node : Node) (revision : Revision) :
    Except Error (List (Node × Node) × Revision) :=
  match revision.document.resolve node with
  | .sequence _ _ items => contributions settle [] items revision
  | node => contribution settle node revision

/-- Goes through the entries of a mapping from the given place on. A merge key is taken out before
the mappings under it are settled, which may lead back to this mapping; what they give is put in
front at the end. -/
def settleFrom (settle : Settling) (id : Nat) (written gathered : List (Node × Node)) :
    Nat → Nat → Revision → Except Error Revision
  | 0, _, revision =>
    if gathered.isEmpty then .ok revision
    else .ok (revision.change id (gathered ++ revision.entriesOf id written))
  | steps + 1, place, revision =>
    let entries := revision.entriesOf id written
    match entries[place]? with
    | none => settleFrom settle id written gathered steps place revision
    | some (key, value) =>
      if revision.tagOf key == .merge then
        match merged settle value (revision.change id (entries.eraseIdx place)) with
        | .error fault => .error fault
        | .ok (more, revision) =>
          settleFrom settle id written (gathered ++ more) steps place revision
      else if revision.tagOf key == .value then
        settleFrom settle id written gathered steps (place + 1) (revision.makePlain key)
      else settleFrom settle id written gathered steps (place + 1) revision

def settleWithin : Nat → Settling
  | 0 => fun _ _ _ => .error .tooDeep
  | fuel + 1 => fun id written revision =>
    settleFrom (settleWithin fuel) id written [] (revision.entriesOf id written).length 0 revision

theorem settleFrom_of_ordinary {settle : Settling} {id : Nat} {written : List (Node × Node)}
    {revision : Revision}
    (ordinary : ∀ entry ∈ revision.entriesOf id written,
      revision.tagOf entry.1 ≠ .merge ∧ revision.tagOf entry.1 ≠ .value) (steps place : Nat) :
    settleFrom settle id written [] steps place revision = .ok revision := by
  induction steps generalizing place with
  | zero => rfl
  | succ steps ih =>
      cases found : (revision.entriesOf id written)[place]? with
      | none => simp only [settleFrom, found, ih]
      | some entry =>
          obtain ⟨notMerge, notValue⟩ := ordinary entry (List.mem_of_getElem? found)
          simp [settleFrom, found, notMerge, notValue, ih]

/-- Every further mapping is reached through a merge key that has been taken out, so the number of
nodes bounds the depth. -/
def settle : Settling := fun id written revision =>
  settleWithin (revision.document.count + 1) id written revision

theorem settle_of_ordinary {id : Nat} {written : List (Node × Node)} {revision : Revision}
    (ordinary : ∀ entry ∈ revision.entriesOf id written,
      revision.tagOf entry.1 ≠ .merge ∧ revision.tagOf entry.1 ≠ .value) :
    settle id written revision = .ok revision :=
  settleFrom_of_ordinary ordinary _ 0

end Revision

end Workflow.Yaml
