import Workflow.Check.Issue
import Workflow.Json.Value
import Workflow.Number.Notation

/-! Checks of single values of the interchange format. Numbers may be given as texts, and truth
values count as one and zero. -/

namespace Workflow.Check

variable {α : Type}

def text : Json → Checked Text
  | .text value => .ok value
  | _ => .problem .stringType

def list (item : Json → Checked α) : Json → Checked (List α)
  | .array items => Checked.items item items
  | _ => .problem .listType

def optional (check : Json → Checked α) : Json → Checked (Option α)
  | .null => .ok none
  | value => (check value).map some

def textTable : Json → Checked (Table Text)
  | .object fields =>
    fields.foldr (fun (key, value) rest =>
      .cons ((Checked.under key (text value)).map fun content => (key, content)) rest) (.ok [])
  | _ => .problem .dictType

/-- Underscores may stand between places only, and only one at a time. -/
def dropUnderscores? (source : List Char) : Option (List Char) :=
  let rec doubled : List Char → Bool
    | '_' :: '_' :: _ => true
    | _ :: rest => doubled rest
    | [] => false
  if source.head? == some '_' || source.getLast? == some '_' || doubled source then none
  else some (source.filter (· != '_'))

/-- Zeros and underscores before the first other digit; one zero stays before a point or the end. -/
def dropZeros? (source : List Char) : Option (List Char) :=
  let rec afterZero (last : Char) : List Char → Option (List Char)
    | [] => some [last]
    | c :: rest =>
      if c = '0' ∨ c = '_' then afterZero c rest
      else if c = '.' then some (last :: c :: rest)
      else if c.isDigit then some (c :: rest)
      else none
  match source with
  | c :: rest =>
    if c = '0' then afterZero c rest
    else if c.isDigit || c = '-' then some source
    else none
  | [] => none

def dropFraction? (source : List Char) : Option (List Char) :=
  match source.dropWhile (· != '.') with
  | [] => some source
  | _ :: fraction =>
    if fraction.all (· == '0') then some (source.takeWhile (· != '.')) else none

def dropPlus? : List Char → Option (List Char)
  | '+' :: '-' :: _ => none
  | '+' :: rest => some rest
  | source => some source

def digits? (source : List Char) : Option Int :=
  let (negative, body) :=
    match source with
    | '-' :: body => (true, body)
    | body => (false, body)
  if body.isEmpty || !body.all Char.isDigit then none
  else
    let value : Int := Numeral.digitsValue body
    some (if negative then -value else value)

def integerText (source : Text) : Checked Int :=
  let body := Text.trimWhere Text.isNarrowBlank source.chars
  if Numeral.digitLimit < body.length then .problem .intParsingSize
  else
    match dropPlus? body >>= dropZeros? >>= dropFraction? >>= dropUnderscores? >>= digits? with
    | some value => .ok value
    | none => .problem .intParsing

/-- A whole number given as a double must be smaller than this in size. -/
def doubleLimit : Nat := Binary64.twoTo 63

def int : Json → Checked Int
  | .int value => .ok value
  | .bool value => .ok (if value then 1 else 0)
  | .double value =>
    if !value.isFinite then .problem .finiteNumber
    else
      match value.toInt? with
      | some whole =>
        if whole.natAbs < doubleLimit then .ok whole else .problem .intParsingSize
      | none => .problem .intFromFloat
  | .text source => integerText source
  | _ => .problem .intType

def doubleText (source : Text) : Checked Binary64 :=
  let body := Text.trimWhere Text.isNarrowBlank source.chars
  match (Numeral.decimal? body).or (dropUnderscores? body >>= Numeral.decimal?) with
  | some value => .ok value
  | none => .problem .floatParsing

def double : Json → Checked Binary64
  | .double value => .ok value
  | .int value =>
    let nearest := Binary64.ofInt value
    if nearest.isFinite then .ok nearest else .problem .floatType
  | .bool value => .ok (Binary64.ofInt (if value then 1 else 0))
  | .text source => doubleText source
  | _ => .problem .floatType

def oneOf (choices : List (Text × α)) : Json → Checked α
  | .text word =>
    match choices.lookup word with
    | some value => .ok value
    | none => .problem .literalError
  | _ => .problem .literalError

/-- The fields of an object; how a value of another kind is called depends on its place. -/
def fields (otherwise : Problem) : Json → Checked (Table Json)
  | .object fields => .ok fields
  | _ => .problem otherwise

def required (key : Text) (check : Json → Checked α) (fields : Table Json) : Checked α :=
  match fields.get? key with
  | some value => Checked.under key (check value)
  | none => Checked.under key (.problem .missing)

def withDefault (key : Text) (default : α) (check : Json → Checked α) (fields : Table Json) :
    Checked α :=
  match fields.get? key with
  | some value => Checked.under key (check value)
  | none => .ok default

def noOthers (known : List Text) (fields : Table Json) : Checked Unit :=
  match fields.filter fun (key, _) => !known.contains key with
  | [] => .ok ()
  | others => .error (others.map fun (key, _) => ⟨[key], .extraForbidden⟩)

example : (integerText " +1_000.00 ").toOption = some 1000 := by decide +kernel
example : (integerText "1__0").toOption = none := by decide +kernel
example : (int (.double (.ofDecimal false 1 18))).toOption = some 1000000000000000000 := by
  decide +kernel
example : (int (.double (.ofDecimal false 1 19))).toOption = none := by decide +kernel
example : (doubleText "1_0e1").toOption = some (Binary64.ofInt 100) := by decide +kernel

end Workflow.Check
