import Workflow.Host
import Workflow.Number.Notation
import Workflow.Text.Literal
import Workflow.Yaml.Error
import Workflow.Yaml.Value.Basic

/-! Values as text. Inside a collection texts and dates are shown as literals, and a collection that
is being shown already as three points. -/

namespace Workflow.Yaml.Value

def intChars (value : Int) : Except Error (List Char) :=
  if Numeral.writable value then .ok (toString value).toList else .error .digitLimit

def commaChars (parts : List (List Char)) : List Char := (parts.intersperse [',', ' ']).flatten

def points : List Char := ['.', '.', '.']

def enclose (opening closing : Char) (body : List Char) : List Char :=
  opening :: body ++ [closing]

variable [Host]

/-- The literal of a value; `active` are the collections that are being shown, pairs by their place
in a list. -/
def literalChars (collections : Collections) (active : List (Nat × Option Nat)) :
    Nat → Value → Except Error (List Char)
  | 0, _ => .error .tooDeep
  | fuel + 1, value =>
    match value with
    | .null => .ok "None".toList
    | .bool value => .ok (if value then "True" else "False").toList
    | .int value => intChars value
    | .double value => .ok value.text.toList
    | .nan _ => .ok Binary64.nan.text.toList
    | .text value => .ok (Text.literalChars value)
    | .bytes value => .ok (Text.literalBytes value)
    | .date value => .ok value.literalChars
    | .dateTime value => .ok value.literalChars
    | .list id =>
      if active.contains (id, none) then .ok (enclose '[' ']' points)
      else
        ((collections.itemsOf id).mapM (literalChars collections ((id, none) :: active) fuel)).map
          fun parts => enclose '[' ']' (commaChars parts)
    | .dict id =>
      if active.contains (id, none) then .ok (enclose '\x7b' '\x7d' points)
      else
        ((collections.entriesOf id).mapM fun (key, value) => do
          let first ← literalChars collections ((id, none) :: active) fuel key
          let second ← literalChars collections ((id, none) :: active) fuel value
          return first ++ [':', ' '] ++ second).map fun parts =>
          enclose '\x7b' '\x7d' (commaChars parts)
    | .set id =>
      if (collections.itemsOf id).isEmpty then .ok "set()".toList
      else
        ((collections.itemsOf id).mapM (literalChars collections active fuel)).map fun parts =>
          enclose '\x7b' '\x7d' (commaChars (Host.arrange parts))
    | .pair owner place first second =>
      if active.contains (owner, some place) then .ok (enclose '(' ')' points)
      else
        ([first, second].mapM
          (literalChars collections ((owner, some place) :: active) fuel)).map fun parts =>
          enclose '(' ')' (commaChars parts)

/-- Each collection and each pair is entered at most once on a way down. -/
def displayFuel (collections : Collections) : Nat :=
  collections.size + (collections.items.flatMap Prod.snd).length + 2

def display (collections : Collections) (value : Value) : Except Error Text :=
  match value with
  | .text value => .ok value
  | .date value => .ok (Text.ofChars value.textChars)
  | .dateTime value => .ok (Text.ofChars value.textChars)
  | value => (literalChars collections [] (displayFuel collections) value).map Text.ofChars

end Workflow.Yaml.Value
