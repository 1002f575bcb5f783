import Workflow.Text.Digit

/-! Dates and times of day of the common calendar, from the year 1 to 9999, with the two ways in
which they are shown. -/

namespace Workflow

structure Date where
  year : Nat
  month : Nat
  day : Nat
  deriving DecidableEq, Repr

/-- A date with a time of day; the offset from universal time is in minutes. -/
structure DateTime where
  date : Date
  hour : Nat
  minute : Nat
  second : Nat
  microsecond : Nat
  offset : Option Int
  deriving DecidableEq, Repr

namespace Date

def isLeap (year : Nat) : Bool := year % 4 == 0 && (year % 100 != 0 || year % 400 == 0)

def daysIn (year month : Nat) : Nat :=
  match month with
  | 2 => if isLeap year then 29 else 28
  | 4 | 6 | 9 | 11 => 30
  | _ => 31

def isValid (date : Date) : Bool :=
  decide (1 ≤ date.year ∧ date.year ≤ 9999) && decide (1 ≤ date.month ∧ date.month ≤ 12) &&
    decide (1 ≤ date.day ∧ date.day ≤ daysIn date.year date.month)

/-- Days before a date, counted from the start of the calendar. -/
def dayNumber (date : Date) : Nat :=
  let past := date.year - 1
  let months := (List.range (date.month - 1)).foldl
    (fun days index => days + daysIn date.year (index + 1)) 0
  past * 365 + past / 4 - past / 100 + past / 400 + months + date.day

def padded (width value : Nat) : List Char :=
  let digits := Nat.toDigits 10 value
  List.replicate (width - digits.length) '0' ++ digits

def textChars (date : Date) : List Char :=
  padded 4 date.year ++ '-' :: (padded 2 date.month ++ '-' :: padded 2 date.day)

def commaList (values : List Nat) : List Char :=
  ((values.map (Nat.toDigits 10)).intersperse [',', ' ']).flatten

def literalChars (date : Date) : List Char :=
  "datetime.date(".toList ++ commaList [date.year, date.month, date.day] ++ [')']

example : isValid ⟨2024, 2, 29⟩ ∧ ¬isValid ⟨2023, 2, 29⟩ := by decide
example : dayNumber ⟨1, 1, 1⟩ = 1 ∧ dayNumber ⟨2000, 1, 1⟩ = 730120 := by decide +kernel

end Date

namespace DateTime

def isValid (moment : DateTime) : Bool :=
  moment.date.isValid && decide (moment.hour < 24) && decide (moment.minute < 60) &&
    decide (moment.second < 60) && moment.offset.all fun minutes => decide (minutes.natAbs < 1440)

/-- Seconds and microseconds since the start of the calendar, in universal time if known. -/
def instant (moment : DateTime) : Int × Nat :=
  let minutes : Int := (moment.date.dayNumber * 24 + moment.hour : Nat) * 60 + moment.minute
  ((minutes - moment.offset.getD 0) * 60 + moment.second, moment.microsecond)

def sameMoment (first second : DateTime) : Bool :=
  first.offset.isSome == second.offset.isSome && first.instant == second.instant

def offsetChars (minutes : Int) : List Char :=
  (if minutes < 0 then '-' else '+') ::
    (Date.padded 2 (minutes.natAbs / 60) ++ ':' :: Date.padded 2 (minutes.natAbs % 60))

def textChars (moment : DateTime) : List Char :=
  moment.date.textChars ++ ' ' :: (Date.padded 2 moment.hour ++ ':' ::
    (Date.padded 2 moment.minute ++ ':' :: Date.padded 2 moment.second)) ++
    (if moment.microsecond = 0 then [] else '.' :: Date.padded 6 moment.microsecond) ++
    (moment.offset.map offsetChars).getD []

def zoneChars (minutes : Int) : List Char :=
  if minutes = 0 then "datetime.timezone.utc".toList
  else
    let whole := (minutes * 60) % 86400
    let days := if minutes < 0 then "days=-1, ".toList else []
    "datetime.timezone(datetime.timedelta(".toList ++ days ++ "seconds=".toList ++
      Nat.toDigits 10 whole.toNat ++ [')', ')']

def literalChars (moment : DateTime) : List Char :=
  let small :=
    if moment.microsecond ≠ 0 then [moment.second, moment.microsecond]
    else if moment.second ≠ 0 then [moment.second] else []
  let date := moment.date
  "datetime.datetime(".toList ++
    Date.commaList ([date.year, date.month, date.day, moment.hour, moment.minute] ++ small) ++
    (moment.offset.map fun minutes => ", tzinfo=".toList ++ zoneChars minutes).getD [] ++ [')']

end DateTime

end Workflow
