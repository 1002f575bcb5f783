import Workflow.Text.Basic

/-! Blank characters. Two sets are in use: the wide one separates words, the narrow one lacks the
four information separators and surrounds numbers given as text. -/

namespace Workflow.Text

/-- Inclusive ranges of code points, in increasing order. -/
abbrev Ranges := List (Nat × Nat)

def Ranges.has (ranges : Ranges) (c : Char) : Bool :=
  ranges.any fun range => decide (range.1 ≤ c.toNat) && decide (c.toNat ≤ range.2)

def blankRanges : Ranges :=
  [(0x9, 0xd), (0x1c, 0x20), (0x85, 0x85), (0xa0, 0xa0), (0x1680, 0x1680), (0x2000, 0x200a),
    (0x2028, 0x2029), (0x202f, 0x202f), (0x205f, 0x205f), (0x3000, 0x3000)]

def isBlank (c : Char) : Bool := blankRanges.has c

def isNarrowBlank (c : Char) : Bool := isBlank c && !(0x1c ≤ c.toNat && c.toNat ≤ 0x1f)

def trimWhere {α : Type} (p : α → Bool) (row : List α) : List α :=
  ((row.dropWhile p).reverse.dropWhile p).reverse

def trimBlanks (text : Text) : Text := ⟨trimWhere (fun letter => isBlank letter.shape) text.letters⟩

end Workflow.Text
