import Workflow.Yaml.Character

/-! Plain scalars: texts without quotes. They end at a comment, at an indicator, or where a new line
is indented too little, and their lines are folded into one. -/

namespace Workflow.Yaml.Plain

def isFlowMark (c : Char) : Bool :=
  c == ',' || c == '[' || c == ']' || c == '\x7b' || c == '\x7d'

def ends (flow : Bool) (c : Char) (rest : List Char) : Bool :=
  c == ' ' || c == '\t' || isBreak c ||
    (c == ':' && (atGap rest || (flow && startsWith isFlowMark rest))) ||
    (flow && (c == '?' || isFlowMark c))

def run (flow : Bool) : List Char → List Char × List Char
  | [] => ([], [])
  | c :: rest =>
    if ends flow c rest then ([], c :: rest)
    else
      let (more, after) := run flow rest
      (c :: more, after)

/-- What lies between two words: its folded form, empty where the scalar ends. -/
structure Gap where
  fill : List Char
  rest : List Char
  broken : Bool
  column : Nat
  deriving DecidableEq, Repr

def emptyLines : Nat → Nat → List Char → Option (List Char) × List Char × Nat
  | 0, column, text => (some [], text, column)
  | fuel + 1, column, text =>
    match text with
    | ' ' :: rest => emptyLines fuel (column + 1) rest
    | text =>
      match lineBreak? text with
      | none => (some [], text, column)
      | some (c, rest) =>
        if atDivider rest then (none, rest, 0)
        else
          let (breaks, after, column) := emptyLines fuel 0 rest
          (breaks.map (c :: ·), after, column)

def gap (text : List Char) : Gap :=
  let blanks := text.takeWhile (· == ' ')
  let rest := text.dropWhile (· == ' ')
  match lineBreak? rest with
  | none => ⟨blanks, rest, false, 0⟩
  | some (first, rest) =>
    if atDivider rest then ⟨[], rest, true, 0⟩
    else
      match emptyLines (rest.length + 1) 0 rest with
      | (none, after, column) => ⟨[], after, true, column⟩
      | (some breaks, after, column) => ⟨fold first breaks, after, true, column⟩

/-- The text of a scalar, what follows it, and whether a line ended right after it. -/
structure Result where
  content : List Char
  rest : List Char
  broken : Bool
  deriving DecidableEq, Repr

/-- Words and gaps in turn; `margin` is the least column of a further line. -/
def words (flow : Bool) (margin : Nat) : Nat → Gap → Result
  | 0, before => ⟨[], before.rest, before.broken⟩
  | fuel + 1, before =>
    let (word, rest) := run flow before.rest
    if before.rest.head? == some '#' || word.isEmpty then ⟨[], before.rest, before.broken⟩
    else
      let after := gap rest
      let last := after.fill.isEmpty || after.rest.head? == some '#' ||
        (!flow && after.broken && decide (after.column < margin))
      let further := if last then ⟨[], after.rest, after.broken⟩ else words flow margin fuel after
      ⟨before.fill ++ word ++ further.content, further.rest, further.broken⟩

def read (flow : Bool) (margin : Nat) (text : List Char) : Result :=
  words flow margin (text.length + 1) ⟨[], text, false, 0⟩

end Workflow.Yaml.Plain
