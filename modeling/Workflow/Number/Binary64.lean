/-! Binary floating-point numbers of double precision, with exact arithmetic on their values and one
rounding, to the nearest number and to the even one of two. -/

namespace Workflow

/-- A finite number is its sign, significand and power of two; the significand is below `2 ^ 53`,
and at least `2 ^ 52` unless the exponent is the least one. -/
inductive Binary64 where
  | finite (negative : Bool) (significand : Nat) (exponent : Int)
  | infinite (negative : Bool)
  | nan
  deriving DecidableEq, Repr, Inhabited

namespace Binary64

def twoTo (exponent : Nat) : Nat := Nat.pow 2 exponent

def tenTo (exponent : Nat) : Nat := Nat.pow 10 exponent

def leastExponent : Int := -1074
def greatestExponent : Int := 971

def zero (negative : Bool) : Binary64 := .finite negative 0 leastExponent

/-- The whole number nearest to a quotient, the even one of two. -/
def nearest (numerator denominator : Nat) : Nat :=
  let quotient := numerator / denominator
  let twice := 2 * (numerator % denominator)
  if denominator < twice ∨ (twice = denominator ∧ quotient % 2 = 1) then quotient + 1 else quotient

/-- The power of two at which the quotient has fifty-three digits before the point. -/
def exponentOf (numerator denominator : Nat) : Int :=
  let guess : Int := (numerator.log2 : Int) - denominator.log2 - 52
  let reached := twoTo 52 * (denominator * twoTo guess.toNat) ≤ numerator * twoTo (-guess).toNat
  if reached then guess else guess - 1

def round (negative : Bool) (numerator denominator : Nat) : Binary64 :=
  if numerator = 0 ∨ denominator = 0 then zero negative
  else
    let exponent := max (exponentOf numerator denominator) leastExponent
    let significand :=
      nearest (numerator * twoTo (-exponent).toNat) (denominator * twoTo exponent.toNat)
    let carried := significand = twoTo 53
    let significand := if carried then twoTo 52 else significand
    let exponent := if carried then exponent + 1 else exponent
    if greatestExponent < exponent then .infinite negative
    else .finite negative significand exponent

def ofInt (value : Int) : Binary64 := round (decide (value < 0)) value.natAbs 1

def isFinite : Binary64 → Bool
  | .finite .. => true
  | _ => false

def magnitude (significand : Nat) (exponent : Int) : Nat × Nat :=
  (significand * twoTo exponent.toNat, twoTo (-exponent).toNat)

def toInt? : Binary64 → Option Int
  | .finite negative significand exponent =>
    let (numerator, denominator) := magnitude significand exponent
    if numerator % denominator = 0 then
      let whole : Int := (numerator / denominator : Nat)
      some (if negative then -whole else whole)
    else none
  | _ => none

def neg : Binary64 → Binary64
  | .finite negative significand exponent => .finite (!negative) significand exponent
  | .infinite negative => .infinite (!negative)
  | .nan => .nan

def addFinite (negative₁ : Bool) (significand₁ : Nat) (exponent₁ : Int)
    (negative₂ : Bool) (significand₂ : Nat) (exponent₂ : Int) : Binary64 :=
  let exponent := min exponent₁ exponent₂
  let signed (negative : Bool) (significand : Nat) (own : Int) : Int :=
    let shifted : Int := (significand * twoTo (own - exponent).toNat : Nat)
    if negative then -shifted else shifted
  let sum := signed negative₁ significand₁ exponent₁ + signed negative₂ significand₂ exponent₂
  if sum = 0 then zero (negative₁ && negative₂)
  else
    let (numerator, denominator) := magnitude sum.natAbs exponent
    round (decide (sum < 0)) numerator denominator

def add : Binary64 → Binary64 → Binary64
  | .nan, _ | _, .nan => .nan
  | .infinite s, .infinite t => if s = t then .infinite s else .nan
  | .infinite s, _ | _, .infinite s => .infinite s
  | .finite s m e, .finite t n f => addFinite s m e t n f

def mul : Binary64 → Binary64 → Binary64
  | .nan, _ | _, .nan => .nan
  | .infinite s, .infinite t => .infinite (s != t)
  | .infinite s, .finite t n _ | .finite t n _, .infinite s =>
    if n = 0 then .nan else .infinite (s != t)
  | .finite s m e, .finite t n f =>
    let (numerator, denominator) := magnitude (m * n) (e + f)
    round (s != t) numerator denominator

/-- The number nearest to `digits * 10 ^ exponent`; far exponents are settled without computing. -/
def ofDecimal (negative : Bool) (digits : Nat) (exponent : Int) : Binary64 :=
  let top : Int := (Nat.toDigits 10 digits).length + exponent
  if digits = 0 ∨ top < -330 then zero negative
  else if 330 < top then .infinite negative
  else round negative (digits * tenTo exponent.toNat) (tenTo (-exponent).toNat)

def equalsInt (value : Binary64) (whole : Int) : Bool := value.toInt? == some whole

/-- Equality of values: both zeros are equal, and nothing equals a missing number. -/
def sameValue : Binary64 → Binary64 → Bool
  | .nan, _ | _, .nan => false
  | .finite _ 0 _, .finite _ 0 _ => true
  | first, second => first == second

example : ofInt 3 = .finite false 6755399441055744 (-51) := by decide +kernel
example : round false 1 10 = .finite false 7205759403792794 (-56) := by decide +kernel
example : ofDecimal false 5 (-324) = .finite false 1 (-1074) := by decide +kernel
example : ofDecimal false 2 308 = .infinite false := by decide +kernel

end Binary64

end Workflow
