import Workflow.Yaml.Character
import Workflow.Yaml.Error
import Workflow.Number.Notation

/-! Quoted scalars. In single quotes a doubled quote stands for one; in double quotes a backslash
begins an escape. Line breaks are folded in both. -/

namespace Workflow.Yaml.Quoted

def simpleEscapes : List (Char × Char) :=
  [('0', '\x00'), ('a', '\x07'), ('b', '\x08'), ('t', '\t'), ('\t', '\t'), ('n', '\n'),
    ('v', '\x0b'), ('f', '\x0c'), ('r', '\r'), ('e', '\x1b'), (' ', ' '), ('\x22', '\x22'),
    ('\\', '\\'), ('/', '/'), ('N', '\x85'), ('_', '\xa0'), ('L', '\u2028'), ('P', '\u2029')]

def escapeWidth? (c : Char) : Option Nat :=
  if c = 'x' then some 2 else if c = 'u' then some 4 else if c = 'U' then some 8 else none

def letter (code : Nat) : Except Error Letter :=
  if 0x7fffffff < code then .error .hugeCharacter
  else if 0x10ffff < code then .error .noCharacter
  else .ok (.ofCode code)

def hexEscape (width : Nat) (text : List Char) : Except Error (Letter × List Char) :=
  match (text.take width).mapM Text.hexDigit? with
  | none => .error .malformed
  | some digits =>
    if digits.length < width then .error .malformed
    else (letter (Numeral.foldDigits 16 digits)).map fun value => (value, text.drop width)

def isTabOrBlank (c : Char) : Bool := c == ' ' || c == '\t'

/-- The breaks of empty lines; a divider at the start of a line is a fault. -/
def emptyLines : Nat → List Char → Except Error (List Char × List Char)
  | 0, _ => .error .malformed
  | fuel + 1, text =>
    if atDivider text then .error .malformed
    else
      let text := text.dropWhile isTabOrBlank
      match lineBreak? text with
      | none => .ok ([], text)
      | some (c, rest) => (emptyLines fuel rest).map fun (breaks, after) => (c :: breaks, after)

def gap (text : List Char) : Except Error (List Char × List Char) :=
  let blanks := text.takeWhile isTabOrBlank
  let rest := text.dropWhile isTabOrBlank
  match lineBreak? rest with
  | none => if rest.isEmpty then .error .malformed else .ok (blanks, rest)
  | some (first, rest) =>
    (emptyLines (rest.length + 1) rest).map fun (breaks, after) => (fold first breaks, after)

def escape (text : List Char) : Except Error (List Letter × List Char) :=
  match text with
  | [] => .error .malformed
  | c :: rest =>
    match simpleEscapes.lookup c with
    | some value => .ok ([.char value], rest)
    | none =>
      match escapeWidth? c with
      | some width => (hexEscape width rest).map fun (value, after) => ([value], after)
      | none =>
        match lineBreak? text with
        | some (_, after) =>
          (emptyLines (after.length + 1) after).map fun (breaks, after) => (breaks.map .char, after)
        | none => .error .malformed

def body (double : Bool) : Nat → List Char → Except Error (List Letter × List Char)
  | 0, _ => .error .malformed
  | _ + 1, [] => .error .malformed
  | fuel + 1, c :: rest =>
    let continueWith (part : List Letter) (after : List Char) :
        Except Error (List Letter × List Char) :=
      (body double fuel after).map fun (more, end_) => (part ++ more, end_)
    if isTabOrBlank c || isBreak c then
      match gap (c :: rest) with
      | .error fault => .error fault
      | .ok (part, after) => continueWith (part.map .char) after
    else if double then
      if c = '\x22' then .ok ([], rest)
      else if c = '\\' then
        match escape rest with
        | .error fault => .error fault
        | .ok (part, after) => continueWith part after
      else continueWith [.char c] rest
    else if c = '\x27' then
      match rest with
      | '\x27' :: after => continueWith [.char '\x27'] after
      | _ => .ok ([], rest)
    else continueWith [.char c] rest

def read (double : Bool) (text : List Char) : Except Error (Text × List Char) :=
  (body double (text.length + 1) text).map fun (letters, after) => (⟨letters⟩, after)

end Workflow.Yaml.Quoted
