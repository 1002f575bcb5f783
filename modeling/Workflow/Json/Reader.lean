import Workflow.Host
import Workflow.Json.Value
import Workflow.Number.Notation
import Workflow.Text.Encoding

/-! Reading the interchange format. Of equal keys in an object the last value counts, at the place
of the first. -/

namespace Workflow.Json

inductive ReadError where
  | malformed
  | digitLimit
  /-- Arrays and objects nested too deep for the host. -/
  | tooDeep
  deriving DecidableEq, Repr

def isGap : Letter → Bool
  | .char c => c == ' ' || c == '\t' || c == '\n' || c == '\r'
  | .half _ => false

def skipGap (source : List Letter) : List Letter := source.dropWhile isGap

def hexDigit? (letter : Letter) : Option Nat := letter.char?.bind Text.hexDigit?

def unit? : List Letter → Option (Nat × List Letter)
  | a :: b :: c :: d :: rest =>
    match [a, b, c, d].mapM hexDigit? with
    | some digits => some (Numeral.foldDigits 16 digits, rest)
    | none => none
  | _ => none

/-- A letter given by its unit; two units of a pair give one character. -/
def escapedUnit? (source : List Letter) : Option (Letter × List Letter) :=
  match unit? source with
  | none => none
  | some (high, rest) =>
    match rest with
    | .char '\\' :: .char 'u' :: more =>
      match unit? more with
      | some (low, after) =>
        match Text.pairCode? high low with
        | some code => some (.ofCode code, after)
        | none => some (.ofCode high, rest)
      | none => some (.ofCode high, rest)
    | _ => some (.ofCode high, rest)

def simpleEscape? (c : Char) : Option Char :=
  if c = '\x22' then some '\x22'
  else if c = '\\' then some '\\'
  else if c = '/' then some '/'
  else if c = 'b' then some '\x08'
  else if c = 'f' then some '\x0c'
  else if c = 'n' then some '\n'
  else if c = 'r' then some '\r'
  else if c = 't' then some '\t'
  else none

def textBody : Nat → List Letter → Except ReadError (List Letter × List Letter)
  | 0, _ => .error .malformed
  | _ + 1, [] => .error .malformed
  | fuel + 1, letter :: rest =>
    if letter = .char '\x22' then .ok ([], rest)
    else if letter = .char '\\' then
      match rest with
      | .char 'u' :: more =>
        match escapedUnit? more with
        | some (value, after) => (textBody fuel after).map fun (body, end_) => (value :: body, end_)
        | none => .error .malformed
      | mark :: more =>
        match mark.char?.bind simpleEscape? with
        | some value =>
          (textBody fuel more).map fun (body, end_) => (.char value :: body, end_)
        | none => .error .malformed
      | [] => .error .malformed
    else if letter.code < 0x20 then .error .malformed
    else (textBody fuel rest).map fun (body, end_) => (letter :: body, end_)

def fractionPart (source : List Char) : List Char × List Char :=
  match source with
  | '.' :: rest =>
    let (digits, after) := Numeral.plainDigits rest
    if digits.isEmpty then ([], source) else (digits, after)
  | _ => ([], source)

def exponentPart (source : List Char) : Option Int × List Char :=
  match source with
  | mark :: rest =>
    if mark = 'e' ∨ mark = 'E' then
      let (negative, body) := Numeral.sign rest
      let (digits, after) := Numeral.plainDigits body
      if digits.isEmpty then (none, source)
      else
        let value : Int := Numeral.digitsValue digits
        (some (if negative then -value else value), after)
    else (none, source)
  | [] => (none, source)

/-- A number without needless leading zeros; a point or an exponent makes it a double. -/
def number (negative : Bool) (source : List Char) : Except ReadError (Json × List Char) :=
  let (whole, rest) :=
    match source with
    | '0' :: rest => (['0'], rest)
    | source => Numeral.plainDigits source
  if whole.isEmpty then .error .malformed
  else
    let (fraction, rest) := fractionPart rest
    let (power?, rest) := exponentPart rest
    if fraction.isEmpty && power?.isNone then
      if Numeral.digitLimit < whole.length then .error .digitLimit
      else
        let value : Int := Numeral.digitsValue whole
        .ok (.int (if negative then -value else value), rest)
    else
      .ok (.double (Binary64.ofDecimal negative (Numeral.digitsValue (whole ++ fraction))
        (power?.getD 0 - fraction.length)), rest)

def word? (word source : List Char) : Option (List Char) :=
  if word.isPrefixOf source then some (source.drop word.length) else none

def words : List (String × Json) :=
  [("null", .null), ("true", .bool true), ("false", .bool false), ("NaN", .double .nan),
    ("Infinity", .double (.infinite false)), ("-Infinity", .double (.infinite true))]

def wordValue? (source : List Char) : Option (Json × List Char) :=
  words.findSome? fun (word, value) => (word? word.toList source).map fun rest => (value, rest)

def scalar (source : List Char) : Except ReadError (Json × List Char) :=
  match wordValue? source with
  | some found => .ok found
  | none =>
    match source with
    | '-' :: rest => number true rest
    | source => number false source

def scalarChars : List Letter → List Char
  | .char c :: rest =>
    if c.isAlphanum || c == '+' || c == '-' || c == '.' then c :: scalarChars rest else []
  | _ => []

mutual

/-- A value inside collections that leave room for so many more. -/
def value (room : Nat) : Nat → List Letter → Except ReadError (Json × List Letter)
  | 0, _ => .error .malformed
  | fuel + 1, source =>
    match source with
    | .char '\x22' :: rest =>
      (textBody fuel rest).map fun (body, after) => (.text ⟨body⟩, after)
    | .char '[' :: rest =>
      match room, skipGap rest with
      | 0, _ => .error .tooDeep
      | _ + 1, .char ']' :: after => .ok (.array [], after)
      | room + 1, body =>
        (items room fuel body).map fun (values, after) => (.array values, after)
    | .char '\x7b' :: rest =>
      match room, skipGap rest with
      | 0, _ => .error .tooDeep
      | _ + 1, .char '\x7d' :: after => .ok (.object [], after)
      | room + 1, body =>
        (members room fuel body).map fun (fields, after) => (.object (Table.ofEntries fields), after)
    | source =>
      (scalar (scalarChars source)).map fun (value, left) =>
        (value, left.map .char ++ source.drop (scalarChars source).length)

def items (room : Nat) : Nat → List Letter → Except ReadError (List Json × List Letter)
  | 0, _ => .error .malformed
  | fuel + 1, source =>
    match value room fuel source with
    | .error fault => .error fault
    | .ok (first, rest) =>
      match skipGap rest with
      | .char ',' :: after =>
        (items room fuel (skipGap after)).map fun (others, end_) => (first :: others, end_)
      | .char ']' :: after => .ok ([first], after)
      | _ => .error .malformed

def members (room : Nat) : Nat → List Letter → Except ReadError (List (Text × Json) × List Letter)
  | 0, _ => .error .malformed
  | fuel + 1, source =>
    match source with
    | .char '\x22' :: rest =>
      match textBody fuel rest with
      | .error fault => .error fault
      | .ok (key, rest) =>
        match skipGap rest with
        | .char ':' :: rest =>
          match value room fuel (skipGap rest) with
          | .error fault => .error fault
          | .ok (first, rest) =>
            match skipGap rest with
            | .char ',' :: after =>
              (members room fuel (skipGap after)).map fun (others, end_) =>
                ((⟨key⟩, first) :: others, end_)
            | .char '\x7d' :: after => .ok ([(⟨key⟩, first)], after)
            | _ => .error .malformed
        | _ => .error .malformed
    | _ => .error .malformed

end

def read [Host] (source : Text) : Except ReadError Json :=
  match value Host.dataDepth (source.letters.length + 1) (skipGap source.letters) with
  | .error fault => .error fault
  | .ok (result, rest) => if (skipGap rest).isEmpty then .ok result else .error .malformed

end Workflow.Json
