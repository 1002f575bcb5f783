import Workflow.Yaml.Node.Reader

/-! Data as it stands in tokens: texts, lists and dictionaries, without tags, anchors and merging.
From its tokens a tree is read as the nodes that it stands for, numbered as they come. -/

namespace Workflow.Yaml

theorem bind_of_ok {σ ε α β : Type} {first : StateT σ (Except ε) α}
    {next : α → StateT σ (Except ε) β} {before after : σ} {value : α}
    (known : first before = .ok (value, after)) : (first >>= next) before = next value after := by
  show (first before >>= fun found => next found.1 found.2) = _
  rw [known]
  rfl

/-- Data of a document. Texts are plain or quoted, and lists are in brackets or in lines. -/
inductive Tree where
  | null
  | text (content : List Char) (plain : Bool)
  | list (flow : Bool) (items : List Tree)
  | dict (fields : List (List Char × Tree))

namespace Tree

mutual

def size : Tree → Nat
  | .null | .text .. => 1
  | .list _ items => sizeOfItems items + 1
  | .dict fields => sizeOfFields fields + 1

def sizeOfItems : List Tree → Nat
  | [] => 0
  | item :: rest => size item + sizeOfItems rest

def sizeOfFields : List (List Char × Tree) → Nat
  | [] => 0
  | (_, value) :: rest => size value + 1 + sizeOfFields rest

end

mutual

def node (id : Nat) : Tree → Node
  | .null => .scalar id .null ""
  | .text content _ => .scalar id .str (.ofChars content)
  | .list _ items => .sequence id .seq (nodesOfItems (id + 1) items)
  | .dict fields => .mapping id .map (nodesOfFields (id + 1) fields)

def nodesOfItems (id : Nat) : List Tree → List Node
  | [] => []
  | item :: rest => node id item :: nodesOfItems (id + size item) rest

def nodesOfFields (id : Nat) : List (List Char × Tree) → List (Node × Node)
  | [] => []
  | (key, value) :: rest =>
    (.scalar id .str (.ofChars key), node (id + 1) value) :: nodesOfFields (id + 1 + size value) rest

end

mutual

def tokens : Tree → List Token
  | .null => []
  | .text content plain => [.scalar (.ofChars content) plain]
  | .list true items => .flowSequenceStart :: (tokensOfWords true items ++ [.flowSequenceEnd])
  | .list false items => .blockSequenceStart :: (tokensOfItems items ++ [.blockEnd])
  | .dict fields => .blockMappingStart :: (tokensOfFields fields ++ [.blockEnd])

def tokensOfWords (first : Bool) : List Tree → List Token
  | [] => []
  | item :: rest => (if first then [] else [.flowEntry]) ++ tokens item ++ tokensOfWords false rest

def tokensOfItems : List Tree → List Token
  | [] => []
  | item :: rest => .blockEntry :: (tokens item ++ tokensOfItems rest)

def tokensOfFields : List (List Char × Tree) → List Token
  | [] => []
  | (key, value) :: rest =>
    .key :: .scalar (.ofChars key) true :: .value :: (tokens value ++ tokensOfFields rest)

end

/-- Nothing but texts is read as a text, lists in brackets have texts only, the keys of a dictionary
are distinct, and nothing is nested deeper than there is room for. -/
inductive Sound : Nat → Tree → Prop where
  | null {room : Nat} : Sound room .null
  | text {room : Nat} {content : List Char} {plain : Bool}
      (known : Reading.scalarTag none plain (.ofChars content) = .str) : Sound room (.text content plain)
  | words {room : Nat} {items : List Tree} (texts : ∀ item ∈ items, ∃ content plain,
      item = .text content plain ∧ Reading.scalarTag none plain (.ofChars content) = .str) :
      Sound (room + 1) (.list true items)
  | lines {room : Nat} {items : List Tree} (each : ∀ item ∈ items, Sound room item) :
      Sound (room + 1) (.list false items)
  | dict {room : Nat} {fields : List (List Char × Tree)}
      (distinct : (fields.map Prod.fst).Nodup)
      (keys : ∀ field ∈ fields, Tag.ofPlain field.1 = .str)
      (each : ∀ field ∈ fields, Sound room field.2) : Sound (room + 1) (.dict fields)

end Tree

namespace Reading

theorem scalarTag_plain (content : List Char) :
    scalarTag none true (.ofChars content) = Tag.ofPlain content := by
  rw [scalarTag, if_pos rfl, Text.chars_ofChars]

/-- A reader of tokens without faults, behind which no anchor is declared. -/
abbrev state (tokens : List Token) (count depth : Nat) : Reader :=
  ⟨tokens, none, standardHandles, [], count, depth⟩

theorem peekIn_cons (tokens : List Token) (token : Token) (rest : List Token) (count depth : Nat) :
    peekIn tokens (state (token :: rest) count depth) =
      .ok (tokens.contains token, state (token :: rest) count depth) :=
  rfl

theorem accept_same (token : Token) (rest : List Token) (count depth : Nat) :
    accept token (state (token :: rest) count depth) = .ok (true, state rest count depth) := by
  have same : peekIn [token] (state (token :: rest) count depth) =
      .ok (true, state (token :: rest) count depth) := by
    rw [peekIn_cons]
    simp
  rw [accept, bind_of_ok same]
  rfl

theorem accept_other {token other : Token} (different : other ≠ token) (rest : List Token)
    (count depth : Nat) :
    accept token (state (other :: rest) count depth) =
      .ok (false, state (other :: rest) count depth) := by
  have same : peekIn [token] (state (other :: rest) count depth) =
      .ok (false, state (other :: rest) count depth) := by
    rw [peekIn_cons]
    simp [different]
  rw [accept, bind_of_ok same]
  rfl

def blockEnds : List Token := [.blockEntry, .key, .value, .blockEnd]

theorem head_of_tokens {tree : Tree} (given : tree ≠ .null) :
    ∃ token rest, tree.tokens = token :: rest ∧ token ∉ blockEnds ∧
      (isDirective token || token == .documentStart) = false := by
  cases tree with
  | null => exact absurd rfl given
  | text content plain => exact ⟨_, [], rfl, by simp [blockEnds], rfl⟩
  | list flow items => cases flow <;> exact ⟨_, _, by rw [Tree.tokens], by decide⟩
  | dict fields => exact ⟨_, _, by rw [Tree.tokens], by decide⟩

theorem entry_or_end (items : List Tree) (rest : List Token) :
    ∃ token others, Tree.tokensOfItems items ++ .blockEnd :: rest = token :: others ∧
      token ∈ [.blockEntry, .blockEnd] := by
  cases items with
  | nil => exact ⟨_, _, rfl, by simp⟩
  | cons item others => exact ⟨_, _, by rw [Tree.tokensOfItems, List.cons_append], by simp⟩

theorem key_or_end (fields : List (List Char × Tree)) (rest : List Token) :
    ∃ token others, Tree.tokensOfFields fields ++ .blockEnd :: rest = token :: others ∧
      token ∈ [.key, .value, .blockEnd] := by
  cases fields with
  | nil => exact ⟨_, _, rfl, by simp⟩
  | cons field others => exact ⟨_, _, by rw [Tree.tokensOfFields, List.cons_append], by simp⟩

variable [Host]

theorem collection_of_ok {body : Nat → Reading Node} {tokens rest : List Token}
    {count further depth : Nat} {found : Node} (shallow : depth < Host.markupDepth)
    (known : body count (state tokens (count + 1) (depth + 1)) =
      .ok (found, state rest further (depth + 1))) :
    collection none body (state tokens count depth) = .ok (found, state rest further depth) := by
  have entered : enter (state tokens (count + 1) depth) =
      .ok ((), state tokens (count + 1) (depth + 1)) := by
    have room : ¬ Host.markupDepth ≤ depth := Nat.not_le.mpr shallow
    show (if Host.markupDepth ≤ depth then _ else _ : Reading Unit) _ = _
    rw [if_neg room]
    rfl
  show (enter >>= fun _ => _) (state tokens (count + 1) depth) = _
  rw [bind_of_ok entered, bind_of_ok known]
  rfl

theorem collection_opened {α : Type} {inner : Reading α} {make : Nat → α → Node} {opening : Token}
    {tokens rest : List Token} {count further depth : Nat} {found : α}
    (shallow : depth < Host.markupDepth)
    (known : inner (state tokens (count + 1) (depth + 1)) =
      .ok (found, state rest further (depth + 1))) :
    collection none (fun id => do
        drop
        return make id (← inner)) (state (opening :: tokens) count depth) =
      .ok (make count found, state rest further depth) := by
  apply collection_of_ok shallow
  have dropped : drop (state (opening :: tokens) (count + 1) (depth + 1)) =
      .ok ((), state tokens (count + 1) (depth + 1)) := rfl
  rw [bind_of_ok dropped, bind_of_ok known]
  rfl

theorem node_text (block indentless : Bool) (fuel : Nat) (content : List Char) (plain : Bool)
    (rest : List Token) (count depth : Nat) :
    node block indentless (fuel + 1) (state (.scalar (.ofChars content) plain :: rest) count depth) =
      .ok (.scalar count (scalarTag none plain (.ofChars content)) (.ofChars content), state rest (count + 1) depth) := by
  rw [node]
  rfl

variable {items : List Tree} {fields : List (List Char × Tree)} {rest : List Token}
  {fuel count depth : Nat} {indentless : Bool}

theorem flowItems_text (first : Bool) (content : List Char) (plain : Bool) :
    flowItems first (fuel + 1) (state ((if first then [] else [.flowEntry]) ++
        .scalar (.ofChars content) plain :: rest) count depth) =
      (node false false fuel >>= fun item => return item :: (← flowItems false fuel))
        (state (.scalar (.ofChars content) plain :: rest) count depth) := by
  cases first <;> rw [flowItems] <;> rfl

theorem flowItems_of_words (first : Bool)
    (texts : ∀ item ∈ items, ∃ content plain,
      item = .text content plain ∧ scalarTag none plain (.ofChars content) = .str)
    (enough : (Tree.tokensOfWords first items).length + 1 < fuel) :
    flowItems first fuel
        (state (Tree.tokensOfWords first items ++ .flowSequenceEnd :: rest) count depth) =
      .ok (Tree.nodesOfItems count items, state rest (count + Tree.sizeOfItems items) depth) := by
  induction items generalizing first fuel count with
  | nil =>
      cases fuel with
      | zero => omega
      | succ fuel =>
          rw [flowItems, Tree.tokensOfWords, List.nil_append, bind_of_ok (accept_same _ _ _ _)]
          rfl
  | cons item others ih =>
      obtain ⟨content, plain, rfl, known⟩ := texts item List.mem_cons_self
      simp only [Tree.tokensOfWords, Tree.tokens, List.length_append, List.length_singleton] at enough
      obtain ⟨fuel, rfl⟩ : ∃ less, fuel = less + 2 := ⟨fuel - 2, by omega⟩
      have further := @ih (fuel + 1) (count + 1) false
        (fun other member => texts other (List.mem_cons_of_mem _ member)) (by omega)
      have first := node_text false false fuel content plain
        (Tree.tokensOfWords false others ++ .flowSequenceEnd :: rest) count depth
      rw [Tree.tokensOfWords, Tree.tokens, List.append_assoc, List.append_assoc,
        List.singleton_append, flowItems_text, bind_of_ok first, bind_of_ok further, known,
        Tree.nodesOfItems, Tree.sizeOfItems, Tree.size, Tree.node, Nat.add_assoc]
      rfl

theorem node_of_words (block : Bool)
    (texts : ∀ item ∈ items, ∃ content plain,
      item = .text content plain ∧ scalarTag none plain (.ofChars content) = .str)
    (enough : 2 * (Tree.list true items).tokens.length ≤ fuel) (shallow : depth < Host.markupDepth) :
    node block indentless fuel (state ((Tree.list true items).tokens ++ rest) count depth) =
      .ok ((Tree.list true items).node count,
        state rest (count + (Tree.list true items).size) depth) := by
  simp only [Tree.tokens, List.length_cons, List.length_append] at enough
  obtain ⟨fuel, rfl⟩ : ∃ less, fuel = less + 1 := ⟨fuel - 1, by omega⟩
  have read := @flowItems_of_words _ items rest fuel (count + 1) (depth + 1) true texts (by omega)
  have begun : node block indentless (fuel + 1)
      (state ((Tree.list true items).tokens ++ rest) count depth) =
        collection none (fun id => do
          drop
          return .sequence id .seq (← flowItems true fuel))
          (state ((Tree.list true items).tokens ++ rest) count depth) := by
    rw [node, Tree.tokens]
    rfl
  rw [begun, Tree.tokens, List.cons_append, List.append_assoc, List.singleton_append,
    collection_opened shallow read, Tree.node, Tree.size, Nat.add_assoc, Nat.add_comm 1]

/-- A tree other than the null tree is read from its tokens. -/
def Reads (room : Nat) (tree : Tree) : Prop :=
  tree ≠ .null → ∀ indentless fuel rest count depth, 2 * tree.tokens.length ≤ fuel →
    depth + room ≤ Host.markupDepth →
    node true indentless fuel (state (tree.tokens ++ rest) count depth) =
      .ok (tree.node count, state rest (count + tree.size) depth)

theorem part_of_tree {room : Nat} {tree : Tree} (reads : Reads room tree) {ends : List Token}
    (known : ends ⊆ blockEnds) {token : Token} (ended : token ∈ ends)
    (enough : 2 * tree.tokens.length < fuel) (shallow : depth + room ≤ Host.markupDepth) :
    part ends true indentless fuel (state (tree.tokens ++ token :: rest) count depth) =
      .ok (tree.node count, state (token :: rest) (count + tree.size) depth) := by
  obtain ⟨fuel, rfl⟩ : ∃ less, fuel = less + 1 := ⟨fuel - 1, by omega⟩
  by_cases absent : tree = .null
  · subst absent
    have closes : ends.contains token = true := List.contains_iff_mem.mpr ended
    rw [part, Tree.tokens, List.nil_append, bind_of_ok (peekIn_cons _ _ _ _ _), closes]
    rfl
  · obtain ⟨head, others, same, opens, _⟩ := head_of_tokens absent
    have goes : ends.contains head = false := by
      rw [← Bool.not_eq_true, List.contains_iff_mem]
      exact fun member => opens (known member)
    have read := reads absent indentless fuel (token :: rest) count depth (by omega) shallow
    rw [same, List.cons_append] at read ⊢
    rw [part, bind_of_ok (peekIn_cons _ _ _ _ _), goes]
    exact read

theorem blockItems_of_trees {room : Nat} (each : ∀ item ∈ items, Reads room item)
    (enough : 2 * (Tree.tokensOfItems items).length < fuel) (shallow : depth + room ≤ Host.markupDepth) :
    blockItems fuel (state (Tree.tokensOfItems items ++ .blockEnd :: rest) count depth) =
      .ok (Tree.nodesOfItems count items, state rest (count + Tree.sizeOfItems items) depth) := by
  induction items generalizing fuel count with
  | nil =>
      obtain ⟨fuel, rfl⟩ : ∃ less, fuel = less + 1 := ⟨fuel - 1, by omega⟩
      rw [blockItems, Tree.tokensOfItems, List.nil_append,
        bind_of_ok (accept_other (by decide) _ _ _)]
      show (accept .blockEnd >>= _) _ = _
      rw [bind_of_ok (accept_same _ _ _ _)]
      rfl
  | cons item others ih =>
      rw [Tree.tokensOfItems, List.length_cons, List.length_append] at enough
      obtain ⟨fuel, rfl⟩ : ∃ less, fuel = less + 1 := ⟨fuel - 1, by omega⟩
      obtain ⟨token, more, same, known⟩ := entry_or_end others rest
      have first := @part_of_tree _ more fuel count depth false room item
        (each item List.mem_cons_self) [.blockEntry, .blockEnd] (by decide) token known (by omega)
        shallow
      have further := @ih fuel (count + item.size)
        (fun other member => each other (List.mem_cons_of_mem _ member)) (by omega)
      rw [← same] at first
      rw [blockItems, Tree.tokensOfItems, List.cons_append, List.append_assoc,
        bind_of_ok (accept_same _ _ _ _)]
      show (part _ true false fuel >>= _) _ = _
      rw [bind_of_ok first, bind_of_ok further, Tree.nodesOfItems, Tree.sizeOfItems, Nat.add_assoc]
      rfl

theorem part_of_key {key : List Char} (known : Tag.ofPlain key = .str) :
    part [.key, .value, .blockEnd] true true (fuel + 2)
        (state (.scalar (.ofChars key) true :: rest) count depth) =
      .ok (.scalar count .str (.ofChars key), state rest (count + 1) depth) := by
  have tagged : scalarTag none true (.ofChars key) = .str := (scalarTag_plain key).trans known
  rw [part, bind_of_ok (peekIn_cons _ _ _ _ _)]
  show node true true (fuel + 1) _ = _
  rw [node_text, tagged]

theorem blockEntries_of_trees {room : Nat} (each : ∀ field ∈ fields, Reads room field.2)
    (keys : ∀ field ∈ fields, Tag.ofPlain field.1 = .str)
    (enough : 2 * (Tree.tokensOfFields fields).length < fuel)
    (shallow : depth + room ≤ Host.markupDepth) :
    blockEntries fuel (state (Tree.tokensOfFields fields ++ .blockEnd :: rest) count depth) =
      .ok (Tree.nodesOfFields count fields,
        state rest (count + Tree.sizeOfFields fields) depth) := by
  induction fields generalizing fuel count with
  | nil =>
      obtain ⟨fuel, rfl⟩ : ∃ less, fuel = less + 1 := ⟨fuel - 1, by omega⟩
      rw [blockEntries, Tree.tokensOfFields, List.nil_append,
        bind_of_ok (accept_other (by decide) _ _ _)]
      show (accept .blockEnd >>= _) _ = _
      rw [bind_of_ok (accept_same _ _ _ _)]
      rfl
  | cons field others ih =>
      obtain ⟨key, value⟩ := field
      simp only [Tree.tokensOfFields, List.length_cons, List.length_append] at enough
      obtain ⟨fuel, rfl⟩ : ∃ less, fuel = less + 3 := ⟨fuel - 3, by omega⟩
      obtain ⟨token, more, same, known⟩ := key_or_end others rest
      have name := @part_of_key _ (.value :: (value.tokens ++ (Tree.tokensOfFields others ++
        .blockEnd :: rest))) fuel count depth key (keys (key, value) List.mem_cons_self)
      have content := @part_of_tree _ more (fuel + 2) (count + 1) depth true room value
        (each (key, value) List.mem_cons_self) [.key, .value, .blockEnd] (by decide) token known
        (by omega) shallow
      have further := @ih (fuel + 2) (count + 1 + value.size)
        (fun other member => each other (List.mem_cons_of_mem _ member))
        (fun other member => keys other (List.mem_cons_of_mem _ member)) (by omega)
      rw [← same] at content
      rw [blockEntries, Tree.tokensOfFields, List.cons_append, List.cons_append, List.cons_append,
        List.append_assoc, bind_of_ok (accept_same _ _ _ _)]
      show (part _ true true (fuel + 2) >>= _) _ = _
      rw [bind_of_ok name, bind_of_ok (accept_same _ _ _ _)]
      show (part _ true true (fuel + 2) >>= _) _ = _
      rw [bind_of_ok content]
      show (blockEntries (fuel + 2) >>= _) _ = _
      have total : count + 1 + value.size + Tree.sizeOfFields others =
          count + (value.size + 1 + Tree.sizeOfFields others) := by omega
      rw [bind_of_ok further, Tree.nodesOfFields, Tree.sizeOfFields, total]
      rfl

theorem reads_of_sound {room : Nat} {tree : Tree} (sound : tree.Sound room) : Reads room tree := by
  induction sound with
  | null => exact fun given => absurd rfl given
  | @text room content plain known =>
      intro _ indentless fuel rest count depth enough _
      rw [Tree.tokens, List.length_singleton] at enough
      obtain ⟨fuel, rfl⟩ : ∃ less, fuel = less + 1 := ⟨fuel - 1, by omega⟩
      rw [Tree.tokens, List.singleton_append, node_text, known]
      rfl
  | words texts =>
      intro _ indentless fuel rest count depth enough shallow
      exact node_of_words true texts enough (by omega)
  | @lines room items _ ih =>
      intro _ indentless fuel rest count depth enough shallow
      rw [Tree.tokens, List.length_cons, List.length_append, List.length_singleton] at enough
      obtain ⟨fuel, rfl⟩ : ∃ less, fuel = less + 1 := ⟨fuel - 1, by omega⟩
      have read := @blockItems_of_trees _ items rest fuel (count + 1) (depth + 1) room ih (by omega)
        (by omega)
      have begun : node true indentless (fuel + 1)
          (state ((Tree.list false items).tokens ++ rest) count depth) =
            collection none (fun id => do
              drop
              return .sequence id .seq (← blockItems fuel))
              (state ((Tree.list false items).tokens ++ rest) count depth) := by
        rw [node, Tree.tokens]
        cases indentless <;> rfl
      rw [begun, Tree.tokens, List.cons_append, List.append_assoc, List.singleton_append,
        collection_opened (by omega) read, Tree.node, Tree.size, Nat.add_assoc, Nat.add_comm 1]
  | @dict room fields _ keys _ ih =>
      intro _ indentless fuel rest count depth enough shallow
      rw [Tree.tokens, List.length_cons, List.length_append, List.length_singleton] at enough
      obtain ⟨fuel, rfl⟩ : ∃ less, fuel = less + 1 := ⟨fuel - 1, by omega⟩
      have read := @blockEntries_of_trees _ fields rest fuel (count + 1) (depth + 1) room ih keys
        (by omega) (by omega)
      have begun : node true indentless (fuel + 1)
          (state ((Tree.dict fields).tokens ++ rest) count depth) =
            collection none (fun id => do
              drop
              return .mapping id .map (← blockEntries fuel))
              (state ((Tree.dict fields).tokens ++ rest) count depth) := by
        rw [node, Tree.tokens]
        cases indentless <;> rfl
      rw [begun, Tree.tokens, List.cons_append, List.append_assoc, List.singleton_append,
        collection_opened (by omega) read, Tree.node, Tree.size, Nat.add_assoc, Nat.add_comm 1]

end Reading

/-- The tokens of a tree are read as the document of its node. -/
theorem Document.ofTokens?_of_tree [Host] {tree : Tree} (sound : tree.Sound Host.markupDepth)
    (given : tree ≠ .null) :
    Document.ofTokens? ⟨tree.tokens, none⟩ = .ok (some ⟨tree.node 0, tree.size⟩) := by
  obtain ⟨head, others, same, _, content⟩ := Reading.head_of_tokens given
  have root := Reading.reads_of_sound sound given false (4 * tree.tokens.length + 4) [] 0 0
    (by omega) (by omega)
  have read : Reading.document (4 * tree.tokens.length + 4) (Reading.state tree.tokens 0 0) =
      .ok (some ⟨tree.node 0, tree.size⟩, Reading.state [] tree.size 0) := by
    have peeked : Reading.peek (Reading.state tree.tokens 0 0) =
        .ok (some head, Reading.state tree.tokens 0 0) := by
      rw [same]
      rfl
    rw [List.append_nil, Nat.zero_add] at root
    rw [Reading.document, bind_of_ok peeked]
    simp only [content, Bool.false_eq_true, ↓reduceIte]
    rw [bind_of_ok root]
    rfl
  show (Reading.document _ (Reading.state tree.tokens 0 0)).map Prod.fst = _
  rw [read]
  rfl

end Workflow.Yaml
