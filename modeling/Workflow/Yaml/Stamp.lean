import Workflow.Calendar
import Workflow.Number.Notation
import Workflow.Yaml.Error

/-! The written form of dates: year, month and day, and maybe a time of day with a fraction of a
second and an offset. -/

namespace Workflow.Yaml

structure Clock where
  hour : Nat
  minute : Nat
  second : Nat
  microsecond : Nat
  offset : Option Int
  deriving DecidableEq, Repr

structure Stamp where
  date : Date
  time : Option Clock
  deriving DecidableEq, Repr

namespace Stamp

def digits? (count : Nat) (text : List Char) : Option (Nat × List Char) :=
  let found := text.take count
  if found.length = count ∧ found.all Char.isDigit then
    some (Numeral.digitsValue found, text.drop count)
  else none

def short? (text : List Char) : Option (Nat × List Char) :=
  match digits? 2 text with
  | some found => some found
  | none => digits? 1 text

def mark? (mark : Char) : List Char → Option (List Char)
  | c :: rest => if c = mark then some rest else none
  | [] => none

def isTabOrBlank (c : Char) : Bool := c == ' ' || c == '\t'

/-- What parts the date from the time: a letter, or blanks. -/
def gap? (text : List Char) : Option (List Char) :=
  match text with
  | 'T' :: rest | 't' :: rest => some rest
  | c :: rest => if isTabOrBlank c then some (rest.dropWhile isTabOrBlank) else none
  | [] => none

/-- A fraction of a second in microseconds; further digits are dropped. -/
def fraction (text : List Char) : Nat × List Char :=
  match text with
  | '.' :: rest =>
    let (found, after) := Numeral.plainDigits rest
    let six := (found ++ List.replicate 6 '0').take 6
    (Numeral.digitsValue six, after)
  | _ => (0, text)

def offsetMinutes? (text : List Char) : Option (Nat × List Char) := do
  let (hours, rest) ← short? text
  match rest with
  | ':' :: rest =>
    let (minutes, rest) ← digits? 2 rest
    some (hours * 60 + minutes, rest)
  | rest => some (hours * 60, rest)

/-- The offset that ends a time; none at all if the text has ended. -/
def offset? (text : List Char) : Option (Option Int) :=
  if text.isEmpty then some none
  else
    match text.dropWhile isTabOrBlank with
    | ['Z'] => some (some 0)
    | sign :: rest =>
      match offsetMinutes? rest with
      | some (minutes, []) =>
        if sign = '+' then some (some (minutes : Int))
        else if sign = '-' then some (some (-(minutes : Int)))
        else none
      | _ => none
    | [] => none

def clock? (text : List Char) : Option Clock := do
  let (hour, rest) ← short? text
  let (minute, rest) ← digits? 2 (← mark? ':' rest)
  let (second, rest) ← digits? 2 (← mark? ':' rest)
  let (microsecond, rest) := fraction rest
  let offset ← offset? rest
  some ⟨hour, minute, second, microsecond, offset⟩

def read? (text : List Char) : Option Stamp := do
  let (year, rest) ← digits? 4 text
  let (month, rest) ← short? (← mark? '-' rest)
  let (day, rest) ← short? (← mark? '-' rest)
  if rest.isEmpty then some ⟨⟨year, month, day⟩, none⟩
  else
    let clock ← clock? (← gap? rest)
    some ⟨⟨year, month, day⟩, some clock⟩

end Stamp

end Workflow.Yaml
