/-! What the machine decides and the program does not. The stack bounds how deep data may nest, and a set
shows its members in an order of its own. -/

namespace Workflow

class Host where
  /-- How many collections may be open at a time while markup is read. -/
  markupDepth : Nat
  /-- How many arrays and objects may be open at a time while interchange data are read. -/
  dataDepth : Nat
  /-- The order of the members of a set as they are shown, from the order in which they were put in. -/
  arrange : List (List Char) → List (List Char)
  markup_room : 16 ≤ markupDepth
  data_room : 16 ≤ dataDepth
  arrange_perm : ∀ members, (arrange members).Perm members

namespace Host

@[reducible] def usual : Host where
  markupDepth := 490
  dataDepth := 990
  arrange := id
  markup_room := by decide
  data_room := by decide
  arrange_perm := fun members => .refl members

end Host

end Workflow
