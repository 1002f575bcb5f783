import Workflow.Yaml.Stamp
import Workflow.Yaml.Tag
import Workflow.Yaml.Value.Basic
import Workflow.Yaml.Value.Binary

/-! The values that scalar texts stand for, by their tags. -/

namespace Workflow.Yaml.Value

def truthWords : List (String × Bool) :=
  [("yes", true), ("no", false), ("true", true), ("false", false), ("on", true), ("off", false)]

def readTruth (text : List Char) : Except Error Value :=
  match truthWords.lookup (String.ofList (Numeral.lower text)) with
  | some value => .ok (.bool value)
  | none => .error .unknownWord

def signed (text : List Char) : Except Error (Bool × List Char) :=
  if text.isEmpty then .error .emptyNumber else .ok (Numeral.sign text)

def dropUnderscores (text : List Char) : List Char := text.filter (· != '_')

def negateIf (negative : Bool) (value : Int) : Int := if negative then -value else value

def sixtyInt (parts : List (List Char)) : Option Int :=
  (parts.mapM (Numeral.integer? 10)).map fun places =>
    places.foldl (fun value place => value * 60 + place) 0

def magnitude (body : List Char) : Except Error Int :=
  let found (value? : Option Int) : Except Error Int :=
    match value? with
    | some value => .ok value
    | none => .error .badNumber
  match body with
  | [] => .error .emptyNumber
  | ['0'] => .ok 0
  | '0' :: 'b' :: digits => found (Numeral.integer? 2 digits)
  | '0' :: 'x' :: digits => found (Numeral.integer? 16 digits)
  | '0' :: _ => found (Numeral.integer? 8 body)
  | _ =>
    if body.contains ':' then found (sixtyInt (Tag.splitWhere (· == ':') body))
    else found (Numeral.integer? 10 body)

def readInt (text : List Char) : Except Error Value :=
  match signed (dropUnderscores text) with
  | .error fault => .error fault
  | .ok (negative, body) => (magnitude body).map fun value => .int (negateIf negative value)

/-- The places of a number in base sixty, last place first, added up in doubles. -/
def sixtyDouble (value : Binary64) (base : Nat) : List Binary64 → Except Error Binary64
  | [] => .ok value
  | place :: rest =>
    let weight := Binary64.ofInt base
    if weight.isFinite then sixtyDouble (value.add (place.mul weight)) (base * 60) rest
    else .error .hugePlace

def doubleMagnitude (body : List Char) : Except Error Binary64 :=
  if body = ".inf".toList then .ok (.infinite false)
  else if body = ".nan".toList then .ok .nan
  else if body.contains ':' then
    match (Tag.splitWhere (· == ':') body).mapM Numeral.anyDecimal? with
    | some places => sixtyDouble (.zero false) 1 places.reverse
    | none => .error .badNumber
  else
    match Numeral.anyDecimal? body with
    | some value => .ok value
    | none => .error .badNumber

/-- A double; what is not a number is one and the same only where it is written with a point. -/
def readDouble (node : Nat) (text : List Char) : Except Error Value :=
  match signed (Numeral.lower (dropUnderscores text)) with
  | .error fault => .error fault
  | .ok (negative, body) =>
    (doubleMagnitude body).map fun value =>
      if value = .nan ∧ body ≠ ".nan".toList then .nan node
      else .double (if negative then value.neg else value)

def ofStamp (stamp : Stamp) : Except Error Value :=
  match stamp.time with
  | none => if stamp.date.isValid then .ok (.date stamp.date) else .error .impossibleTime
  | some clock =>
    let moment : DateTime :=
      ⟨stamp.date, clock.hour, clock.minute, clock.second, clock.microsecond, clock.offset⟩
    if moment.isValid then .ok (.dateTime moment) else .error .impossibleTime

def readStamp? (text : List Char) : Option Stamp :=
  (Stamp.read? text).or
    (if text.getLast? == some '\n' then Stamp.read? text.dropLast else none)

def readTimestamp (text : List Char) : Except Error Value :=
  match readStamp? text with
  | none => .error .notTime
  | some stamp => ofStamp stamp

def ofScalar (node : Nat) (tag : Tag) (text : Text) : Except Error Value :=
  match tag with
  | .null => .ok .null
  | .bool => readTruth text.chars
  | .int => readInt text.chars
  | .float => readDouble node text.chars
  | .binary => (Binary.bytes text.chars).map .bytes
  | .timestamp => readTimestamp text.chars
  | .str => .ok (.text text)
  | _ => .error .malformed

end Workflow.Yaml.Value
