import Workflow.Number.Shortest
import Workflow.Text.Blank
import Workflow.Text.Digit

/-! Numbers as text: how doubles and integers are written, and which texts are numbers. -/

namespace Workflow

/-- Where numbers are written positionally: the first digit's power of ten lies between the two. -/
structure Notation where
  least : Int
  greatest : Int
  exponentWidth : Nat

namespace Binary64

/-- Doubles are positional from `0.0001` and below `10 ^ 16`; exponents have two digits or more. -/
def standard : Notation := ⟨-4, 15, 2⟩

def stripZeros (decimal : Decimal) : List Char × Int :=
  let digits := Nat.toDigits 10 decimal.digits
  let trailing := (digits.reverse.takeWhile (· == '0')).length
  (digits.take (digits.length - trailing), decimal.exponent + trailing)

def exponentText (style : Notation) (power : Int) : List Char :=
  let digits := Nat.toDigits 10 power.natAbs
  (if power < 0 then '-' else '+') ::
    (List.replicate (style.exponentWidth - digits.length) '0' ++ digits)

def decimalText (style : Notation) (decimal : Decimal) : List Char :=
  let (digits, exponent) := stripZeros decimal
  let power : Int := digits.length + exponent - 1
  if power < style.least ∨ style.greatest < power then
    let fraction := digits.drop 1
    digits.take 1 ++ (if fraction.isEmpty then [] else '.' :: fraction) ++
      'e' :: exponentText style power
  else if power < 0 then
    '0' :: '.' :: (List.replicate (-power - 1).toNat '0' ++ digits)
  else
    let whole := power.toNat + 1
    digits.take whole ++ List.replicate (whole - digits.length) '0' ++ '.' ::
      (if digits.length ≤ whole then ['0'] else digits.drop whole)

def text : Binary64 → String
  | .nan => "nan"
  | .infinite negative => if negative then "-inf" else "inf"
  | .finite negative 0 _ => if negative then "-0.0" else "0.0"
  | .finite negative significand exponent =>
    let digits := decimalText standard (shortest significand exponent)
    String.ofList (if negative then '-' :: digits else digits)

example : (ofDecimal false 1 (-1)).text = "0.1" := by decide +kernel
example : (ofDecimal true 2 2).text = "-200.0" := by decide +kernel
example : (ofDecimal false 1 16).text = "1e+16" := by decide +kernel
example : (ofDecimal false 1 (-7)).text = "1e-07" := by decide +kernel
example : (ofDecimal false 5 (-324)).text = "5e-324" := by decide +kernel
example : (round false 400 3).text = "133.33333333333334" := by decide +kernel

end Binary64

namespace Numeral

def sign : List Char → Bool × List Char
  | '-' :: rest => (true, rest)
  | '+' :: rest => (false, rest)
  | rest => (false, rest)

/-- Integers of more decimal digits than this are neither read nor written. -/
def digitLimit : Nat := 4300

def foldDigits (base : Nat) (digits : List Nat) : Nat :=
  digits.foldl (fun value digit => value * base + digit) 0

def baseMark (base : Nat) : Option Char :=
  if base = 2 then some 'b' else if base = 8 then some 'o' else if base = 16 then some 'x' else none

def dropMark (base : Nat) : List Char → List Char
  | '0' :: mark :: rest => if some mark.toLower = baseMark base then rest else '0' :: mark :: rest
  | rest => rest

/-- A numeral without the blanks around it, in the ten plain digits. -/
def normal (text : List Char) : List Char :=
  (Text.trimWhere Text.isNarrowBlank text).map Text.plainDigit

/-- An integer in a base: blanks around it, a sign, the mark of the base, and at least one digit;
only decimal numerals are bounded in length. -/
def integer? (base : Nat) (text : List Char) : Option Int :=
  let (negative, body) := sign (normal text)
  let body := dropMark base body
  match body.mapM (Text.baseDigit? base) with
  | none => none
  | some digits =>
    if digits.isEmpty || (base == 10 && digitLimit < digits.length) then none
    else
      let value : Int := foldDigits base digits
      some (if negative then -value else value)

def lower (text : List Char) : List Char := text.map Char.toLower

def plainDigits (text : List Char) : List Char × List Char :=
  (text.takeWhile Char.isDigit, text.dropWhile Char.isDigit)

def digitsValue (digits : List Char) : Nat := foldDigits 10 (digits.map fun c => c.toNat - 48)

def exponent? : List Char → Option Int
  | [] => some 0
  | mark :: rest =>
    if mark = 'e' ∨ mark = 'E' then
      let (negative, body) := sign rest
      let (digits, rest) := plainDigits body
      if digits.isEmpty ∨ ¬rest.isEmpty then none
      else
        let value : Int := digitsValue digits
        some (if negative then -value else value)
    else none

def unsigned? (negative : Bool) (text : List Char) : Option Binary64 :=
  let (whole, rest) := plainDigits text
  let (fraction, rest) :=
    match rest with
    | '.' :: rest => plainDigits rest
    | rest => ([], rest)
  if whole.isEmpty ∧ fraction.isEmpty then none
  else
    (exponent? rest).map fun power =>
      Binary64.ofDecimal negative (digitsValue (whole ++ fraction)) (power - fraction.length)

def decimal? (text : List Char) : Option Binary64 :=
  let (negative, body) := sign text
  if lower body = "inf".toList ∨ lower body = "infinity".toList then some (.infinite negative)
  else if lower body = "nan".toList then some .nan
  else unsigned? negative body

def anyDecimal? (text : List Char) : Option Binary64 :=
  decimal? (normal text)

@[irreducible] def writable (value : Int) : Bool := decide (value.natAbs < Binary64.tenTo digitLimit)

def tooLong : String :=
  "Exceeds the limit (4300 digits) for integer string conversion; use sys.set_int_max_str_digits() to increase the limit"

/-- The first of the integers from one up to another that is too long to be written. -/
def firstLong? (first last : Int) : Option Int :=
  if !writable first then some first
  else if !writable last then some (Binary64.tenTo digitLimit) else none

example : integer? 10 [' ', '-', '4', '2'] = some (-42) := by decide +kernel
example : integer? 16 ['f', 'F'] = some 255 := by decide +kernel
example : integer? 10 [] = none := by decide +kernel

end Numeral

end Workflow
