import Workflow.Number.Binary64

/-! The fewest decimal digits that read back as a given number. -/

namespace Workflow

/-- The value `digits * 10 ^ exponent`. -/
structure Decimal where
  digits : Nat
  exponent : Int
  deriving DecidableEq, Repr

namespace Binary64

/-- The reals that round to a positive number, as bounds in quarters of its last place. -/
structure Neighbourhood where
  low : Nat
  value : Nat
  high : Nat
  closed : Bool
  deriving DecidableEq, Repr

/-- Below a power of two the numbers lie twice as close, except at the least exponent. -/
def neighbourhood (significand : Nat) (exponent : Int) : Neighbourhood :=
  let tight := significand = twoTo 52 ∧ leastExponent < exponent
  ⟨4 * significand - (if tight then 1 else 2), 4 * significand, 4 * significand + 2,
    significand % 2 = 0⟩

def tenPower (numerator denominator : Nat) : Int :=
  if denominator ≤ numerator then
    ((Nat.toDigits 10 (numerator / denominator)).length : Int) - 1
  else
    let inverse := (denominator + numerator - 1) / numerator
    0 - ((Nat.toDigits 10 (inverse - 1)).length : Int)

/-- The nearer of the two neighbours with `count` digits that lie in the neighbourhood. -/
def decimalOf? (hood : Neighbourhood) (scale : Nat × Nat) (power : Int) (count : Nat) :
    Option Decimal :=
  let exponent := power + 1 - count
  let up := scale.1 * tenTo (-exponent).toNat
  let down := scale.2 * tenTo exponent.toNat
  let below := hood.value * up / down
  let inside (digits : Nat) : Bool :=
    let point := digits * down
    if hood.closed then decide (hood.low * up ≤ point ∧ point ≤ hood.high * up)
    else decide (hood.low * up < point ∧ point < hood.high * up)
  let gapBelow := hood.value * up - below * down
  let gapAbove := (below + 1) * down - hood.value * up
  let preferBelow := gapBelow < gapAbove ∨ (gapBelow = gapAbove ∧ below % 2 = 0)
  if inside below && (decide preferBelow || !inside (below + 1)) then some ⟨below, exponent⟩
  else if inside (below + 1) then some ⟨below + 1, exponent⟩
  else none

/-- Seventeen digits always suffice, so the search ends with an answer. -/
def shortest (significand : Nat) (exponent : Int) : Decimal :=
  let scale := magnitude 1 (exponent - 2)
  let hood := neighbourhood significand exponent
  let power := tenPower (hood.value * scale.1) scale.2
  let found := (List.range 17).findSome? fun count => decimalOf? hood scale power (count + 1)
  found.getD ⟨significand, exponent⟩

end Binary64

end Workflow
