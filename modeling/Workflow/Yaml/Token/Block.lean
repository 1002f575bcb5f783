import Workflow.Yaml.Character
import Workflow.Yaml.Error

/-! Block scalars: indented lines after a header that says whether lines are folded, how the last
breaks are treated, and maybe how deep the lines are indented. -/

namespace Workflow.Yaml.Block

/-- The treatment of the breaks at the end: one is kept, none, or all. -/
inductive Chomp where
  | clip
  | strip
  | keep
  deriving DecidableEq, Repr

structure Header where
  chomp : Chomp
  increment : Option Nat
  rest : List Char
  deriving DecidableEq, Repr

def chompMark? : List Char → Option (Chomp × List Char)
  | '+' :: rest => some (.keep, rest)
  | '-' :: rest => some (.strip, rest)
  | _ => none

def increment? : List Char → Option (Nat × List Char)
  | c :: rest => if '0' ≤ c ∧ c ≤ '9' then some (c.toNat - 48, rest) else none
  | [] => none

def indicators (text : List Char) : Header :=
  match chompMark? text with
  | some (chomp, rest) =>
    match increment? rest with
    | some (count, rest) => ⟨chomp, some count, rest⟩
    | none => ⟨chomp, none, rest⟩
  | none =>
    match increment? text with
    | some (count, rest) =>
      match chompMark? rest with
      | some (chomp, rest) => ⟨chomp, some count, rest⟩
      | none => ⟨.clip, some count, rest⟩
    | none => ⟨.clip, none, text⟩

def restOfLine (text : List Char) : Except Error (List Char) :=
  let text := text.dropWhile (· == ' ')
  let text := if text.head? == some '#' then text.dropWhile (!isBreak ·) else text
  if atLineEnd text then
    match lineBreak? text with
    | some (_, rest) => .ok rest
    | none => .ok text
  else .error .malformed

def header (text : List Char) : Except Error Header :=
  let found := indicators text
  if found.increment == some 0 || !atWordEnd found.rest then .error .malformed
  else (restOfLine found.rest).map fun rest => { found with rest := rest }

/-- A stretch of breaks and blanks, with the column reached on its last line. -/
structure Lead where
  breaks : List Char
  rest : List Char
  column : Nat
  widest : Nat
  deriving DecidableEq, Repr

/-- Empty lines at the start, whose widest line may set the indentation. -/
def lead : Nat → Nat → List Char → Lead
  | 0, column, text => ⟨[], text, column, 0⟩
  | fuel + 1, column, text =>
    match text with
    | ' ' :: rest =>
      let found := lead fuel (column + 1) rest
      { found with widest := max (column + 1) found.widest }
    | text =>
      match lineBreak? text with
      | none => ⟨[], text, column, 0⟩
      | some (c, rest) =>
        let found := lead fuel 0 rest
        { found with breaks := c :: found.breaks }

def dropIndent : Nat → List Char → List Char × Nat
  | indent + 1, ' ' :: rest =>
    let (after, column) := dropIndent indent rest
    (after, column + 1)
  | _, text => (text, 0)

def emptyLines (indent : Nat) : Nat → List Char → Lead
  | 0, text => ⟨[], text, 0, 0⟩
  | fuel + 1, text =>
    let (after, column) := dropIndent indent text
    match lineBreak? after with
    | none => ⟨[], after, column, 0⟩
    | some (c, rest) =>
      let found := emptyLines indent fuel rest
      { found with breaks := c :: found.breaks }

def isTabOrBlank (c : Char) : Bool := c == ' ' || c == '\t'

/-- What joins two lines: folded lines are joined by a blank where both begin with text. -/
def joint (folded : Bool) (line : List Char) (lineBreak : List Char) (next : Lead) : List Char :=
  if folded && lineBreak == ['\n'] && !startsWith isTabOrBlank line &&
      !startsWith isTabOrBlank next.rest then
    if next.breaks.isEmpty then [' '] else []
  else lineBreak

/-- The lines read so far, the break after the last one, and what follows it. -/
structure Lines where
  content : List Char
  lineBreak : List Char
  after : Lead
  deriving DecidableEq, Repr

def lines (folded : Bool) (indent : Nat) : Nat → Lead → Lines
  | 0, before => ⟨[], [], before⟩
  | fuel + 1, before =>
    if before.column != indent || before.rest.isEmpty then ⟨[], [], before⟩
    else
      let line := before.rest.takeWhile (!isBreak ·)
      let rest := before.rest.dropWhile (!isBreak ·)
      let (lineBreak, rest) :=
        match lineBreak? rest with
        | some (c, rest) => ([c], rest)
        | none => ([], rest)
      let next := emptyLines indent (rest.length + 1) rest
      if next.column != indent || next.rest.isEmpty then
        ⟨before.breaks ++ line, lineBreak, next⟩
      else
        let further := lines folded indent fuel next
        ⟨before.breaks ++ line ++ joint folded before.rest lineBreak next ++ further.content,
          further.lineBreak, further.after⟩

/-- The text after the mark of a block scalar; `margin` is the least indentation. -/
def read (folded : Bool) (margin : Nat) (text : List Char) :
    Except Error (List Char × List Char) :=
  match header text with
  | .error fault => .error fault
  | .ok header =>
    let least := max margin 1
    let fuel := header.rest.length + 1
    let (indent, first) :=
      match header.increment with
      | none =>
        let found := lead fuel 0 header.rest
        (max least found.widest, found)
      | some count =>
        let indent := least + count - 1
        (indent, emptyLines indent fuel header.rest)
    let found := lines folded indent fuel first
    let content :=
      match header.chomp with
      | .strip => found.content
      | .clip => found.content ++ found.lineBreak
      | .keep => found.content ++ found.lineBreak ++ found.after.breaks
    .ok (content, found.after.rest)

end Workflow.Yaml.Block
