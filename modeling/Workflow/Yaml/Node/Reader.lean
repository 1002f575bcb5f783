import Workflow.Host
import Workflow.Table
import Workflow.Yaml.Node.Basic
import Workflow.Yaml.Token.Basic

/-! From tokens to the one document of a text. -/

namespace Workflow.Yaml

structure Reader where
  tokens : List Token
  fault : Option Error
  handles : Table Text
  anchors : Table Node
  count : Nat
  /-- How many collections are open. -/
  depth : Nat

abbrev Reading (α : Type) := StateT Reader (Except Error) α

namespace Reading

/-- The next token; the fault behind the last token shows only here. -/
def peek : Reading (Option Token) := fun reader =>
  match reader.tokens, reader.fault with
  | token :: _, _ => .ok (some token, reader)
  | [], some fault => .error fault
  | [], none => .ok (none, reader)

def drop : Reading Unit := modify fun reader => { reader with tokens := reader.tokens.drop 1 }

def fail {α : Type} : Reading α := throw .malformed

def peekIn (tokens : List Token) : Reading Bool := do
  match ← peek with
  | some token => return tokens.contains token
  | none => return false

def accept (token : Token) : Reading Bool := do
  if ← peekIn [token] then
    drop
    return true
  else return false

def freshId : Reading Nat := fun reader =>
  .ok (reader.count, { reader with count := reader.count + 1 })

structure Properties where
  anchor : Option Text
  tag : Option Text
  deriving Inhabited

def anchorName? : Reading (Option Text) := do
  match ← peek with
  | some (.anchor name) =>
    drop
    return some name
  | _ => return none

def tagParts? : Reading (Option (Option Text × Text)) := do
  match ← peek with
  | some (.tag handle suffix) =>
    drop
    return some (handle, suffix)
  | _ => return none

def expand : Option (Option Text × Text) → Reading (Option Text)
  | none => return none
  | some (none, suffix) => return some suffix
  | some (some handle, suffix) => do
    match (← get).handles.get? handle with
    | some expansion => return some (expansion ++ suffix)
    | none => fail

def properties : Reading Properties := do
  match ← anchorName? with
  | some name => return ⟨some name, ← expand (← tagParts?)⟩
  | none =>
    match ← tagParts? with
    | none => return ⟨none, none⟩
    | some parts =>
      let anchor ← anchorName?
      return ⟨anchor, ← expand (some parts)⟩

/-- An anchor may be given only once. -/
def declare (anchor : Option Text) (node : Node) : Reading Unit := do
  match anchor with
  | none => return ()
  | some name =>
    if (← get).anchors.has name then fail
    else modify fun reader => { reader with anchors := reader.anchors.put name node }

def aliased (name : Text) : Reading Node := do
  match (← get).anchors.get? name with
  | some node => return node
  | none => fail

/-- The tag of a scalar: given, or found from its form unless it is quoted. -/
def scalarTag (tag : Option Text) (plain : Bool) (text : Text) : Tag :=
  match tag with
  | none => if plain then .ofPlain text.chars else .str
  | some uri => if uri = "!" then .ofPlain text.chars else .ofUri uri

def scalar (properties : Properties) (plain : Bool) (text : Text) : Reading Node := do
  let node := .scalar (← freshId) (scalarTag properties.tag plain text) text
  declare properties.anchor node
  return node

def missing : Reading Node := return .scalar (← freshId) .null ""

def collectionTag (standard : Tag) : Option Text → Tag
  | none => standard
  | some uri => if uri = "!" then standard else .ofUri uri

variable [Host]

def enter : Reading Unit := do
  if Host.markupDepth ≤ (← get).depth then throw .tooDeep
  else modify fun reader => { reader with depth := reader.depth + 1 }

def leave : Reading Unit := modify fun reader => { reader with depth := reader.depth - 1 }

/-- Reads a collection whose parts may refer to it. -/
def collection (anchor : Option Text) (body : Nat → Reading Node) : Reading Node := do
  let id ← freshId
  declare anchor (.again id)
  enter
  let node ← body id
  leave
  return node

def separator (first : Bool) : Reading Unit := do
  if first then return ()
  else if ← accept .flowEntry then return ()
  else fail

mutual

/-- A node. Block collections may begin only where `block` allows it, and a sequence without
indentation of its own only where `indentless` does. -/
def node (block indentless : Bool) : Nat → Reading Node
  | 0 => fail
  | fuel + 1 => do
    match ← peek with
    | some (.alias name) =>
      drop
      aliased name
    | _ =>
      let found ← properties
      let sequenceTag := collectionTag .seq found.tag
      let mappingTag := collectionTag .map found.tag
      match ← peek with
      | some (.scalar text plain) =>
        drop
        scalar found plain text
      | some .flowSequenceStart =>
        collection found.anchor fun id => do
          drop
          return .sequence id sequenceTag (← flowItems true fuel)
      | some .flowMappingStart =>
        collection found.anchor fun id => do
          drop
          return .mapping id mappingTag (← flowEntries true fuel)
      | next =>
        if indentless && next == some .blockEntry then
          collection found.anchor fun id => do
            return .sequence id sequenceTag (← indentlessItems fuel)
        else if block && next == some .blockSequenceStart then
          collection found.anchor fun id => do
            drop
            return .sequence id sequenceTag (← blockItems fuel)
        else if block && next == some .blockMappingStart then
          collection found.anchor fun id => do
            drop
            return .mapping id mappingTag (← blockEntries fuel)
        else if found.anchor.isSome || found.tag.isSome then scalar found true ""
        else fail

def blockItems : Nat → Reading (List Node)
  | 0 => fail
  | fuel + 1 => do
    if ← accept .blockEntry then
      let item ← part [.blockEntry, .blockEnd] true false fuel
      return item :: (← blockItems fuel)
    else if ← accept .blockEnd then return []
    else fail

def indentlessItems : Nat → Reading (List Node)
  | 0 => fail
  | fuel + 1 => do
    if ← accept .blockEntry then
      let item ← part [.blockEntry, .key, .value, .blockEnd] true false fuel
      return item :: (← indentlessItems fuel)
    else return []

def blockEntries : Nat → Reading (List (Node × Node))
  | 0 => fail
  | fuel + 1 => do
    if ← accept .key then
      let key ← part [.key, .value, .blockEnd] true true fuel
      let value ←
        if ← accept .value then part [.key, .value, .blockEnd] true true fuel
        else missing
      return (key, value) :: (← blockEntries fuel)
    else if ← accept .blockEnd then return []
    else fail

/-- Items of a flow sequence; a key among them begins a mapping of one entry. -/
def flowItems (first : Bool) : Nat → Reading (List Node)
  | 0 => fail
  | fuel + 1 => do
    if ← accept .flowSequenceEnd then return []
    else
      separator first
      if ← peekIn [.key] then
        let item ← collection none fun id => do
          drop
          let key ← part [.value, .flowEntry, .flowSequenceEnd] false false fuel
          let value ←
            if ← accept .value then part [.flowEntry, .flowSequenceEnd] false false fuel
            else missing
          return .mapping id .map [(key, value)]
        return item :: (← flowItems false fuel)
      else if ← accept .flowSequenceEnd then return []
      else
        let item ← node false false fuel
        return item :: (← flowItems false fuel)

def flowEntries (first : Bool) : Nat → Reading (List (Node × Node))
  | 0 => fail
  | fuel + 1 => do
    if ← accept .flowMappingEnd then return []
    else
      separator first
      if ← accept .key then
        let key ← part [.value, .flowEntry, .flowMappingEnd] false false fuel
        let value ←
          if ← accept .value then part [.flowEntry, .flowMappingEnd] false false fuel
          else missing
        return (key, value) :: (← flowEntries false fuel)
      else if ← accept .flowMappingEnd then return []
      else
        let key ← node false false fuel
        return (key, ← missing) :: (← flowEntries false fuel)

/-- A part of a collection, which is missing where one of the given tokens comes next. -/
def part (ends : List Token) (block indentless : Bool) : Nat → Reading Node
  | 0 => fail
  | fuel + 1 => do
    if ← peekIn ends then missing else node block indentless fuel

end

def standardHandles : Table Text := [("!", "!"), ("!!", Tag.authority)]

/-- Directives: at most one version, the first, and each handle at most once. -/
def directives (versioned : Bool) (handles : Table Text) : Nat → Reading (Table Text)
  | 0 => fail
  | fuel + 1 => do
    match ← peek with
    | some (.version major) =>
      drop
      if versioned || major != 1 then fail else directives true handles fuel
    | some (.handle name expansion) =>
      drop
      if handles.has name then fail else directives versioned (handles.put name expansion) fuel
    | some .reserved =>
      drop
      directives versioned handles fuel
    | _ => return handles

def dropEnds : Nat → Reading Unit
  | 0 => return ()
  | fuel + 1 => do
    if ← accept .documentEnd then dropEnds fuel else return ()

def isDirective : Token → Bool
  | .version _ | .handle .. | .reserved => true
  | _ => false

def documentStart (fuel : Nat) : Reading Unit := do
  let given ← directives false [] fuel
  modify fun reader =>
    { reader with handles := standardHandles.foldl (fun handles (name, expansion) =>
        if handles.has name then handles else handles.put name expansion) given }
  if ← accept .documentStart then return () else fail

def content (fuel : Nat) : Reading Node := do
  match ← peek with
  | none => missing
  | some token =>
    if isDirective token || token == .documentStart || token == .documentEnd then missing
    else node true false fuel

def document (fuel : Nat) : Reading (Option Document) := do
  match ← peek with
  | none => return none
  | some token =>
    let root ←
      if isDirective token || token == .documentStart then
        documentStart fuel
        content fuel
      else node true false fuel
    dropEnds fuel
    match ← peek with
    | none => return some ⟨root, (← get).count⟩
    | some _ =>
      documentStart fuel
      fail

end Reading

/-- No round of reading leaves more than four calls for a token, so this much fuel suffices. -/
def Document.ofTokens? [Host] (source : Token.Stream) : Except Error (Option Document) :=
  let fuel := 4 * source.tokens.length + 4
  let reader : Reader := ⟨source.tokens, source.fault, Reading.standardHandles, [], 0, 0⟩
  ((Reading.document fuel).run reader).map Prod.fst

end Workflow.Yaml
