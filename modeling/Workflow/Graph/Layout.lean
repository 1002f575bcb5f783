import Workflow.Graph.Basic

/-! Places of steps that come without one: spread evenly between entry and terminal, in turn to the
left and to the right. -/

namespace Workflow.Layout

def span : Nat := 500
def margin : Int := 50
def offset : Int := 200

def place (parts index : Nat) : Position where
  x := .ofInt (if index % 2 = 0 then -offset else offset)
  y := ((Binary64.round false span parts).mul (.ofInt (index + 1))).add (.ofInt margin)

def positions (count : Nat) : List Position := (List.range count).map (place (count + 1))

/-- The places of a number of steps; one step less than none leaves nothing to divide by. -/
def positions? (count : Int) : Option (List Position) :=
  if count = -1 then none else some (positions count.toNat)

theorem length_positions (count : Nat) : (positions count).length = count := by
  simp [positions]

end Workflow.Layout
