import Workflow.Graph.Basic

/-! Ids made from numbers: different numbers give different ids, and the ids of steps, edges and
paths stay apart from each other. -/

namespace Workflow

theorem repr_injective {m n : Nat} (same : m.repr = n.repr) : m = n := by
  have digits : Nat.toDigits 10 m = Nat.toDigits 10 n := by
    rw [← Nat.toList_repr, ← Nat.toList_repr, same]
  rw [← @Nat.ofDigitChars_ten_toDigits m, ← @Nat.ofDigitChars_ten_toDigits n, digits]

theorem dash_not_mem_repr (n : Nat) : '-' ∉ n.repr.toList := by
  intro member
  rw [Nat.toList_repr] at member
  have digit := Nat.isDigit_of_mem_toDigits (by decide) (by decide) member
  exact absurd digit (by decide)

theorem repr_ne_dash_append (n : Nat) (text : String) : n.repr ≠ "-" ++ text := by
  intro same
  apply dash_not_mem_repr n
  rw [same, String.toList_append]
  exact List.mem_append_left _ (by decide)

theorem toString_injective {m n : Int} (same : toString m = toString n) : m = n := by
  rw [Int.toString_eq_repr, Int.toString_eq_repr, Int.repr_eq_if, Int.repr_eq_if] at same
  split at same
  · split at same
    · have number := repr_injective same
      omega
    · exact absurd same (repr_ne_dash_append _ _)
  · split at same
    · exact absurd same.symm (repr_ne_dash_append _ _)
    · have number := repr_injective (String.append_right_inj _ |>.mp same)
      omega

theorem stepId_injective {m n : Int} (same : stepId m = stepId n) : m = n :=
  toString_injective (Text.ofString_inj.mp (Text.append_right_inj _ |>.mp same))

theorem edgeId_injective {m n : Int} (same : edgeId m = edgeId n) : m = n :=
  toString_injective (Text.ofString_inj.mp (Text.append_right_inj _ |>.mp same))

theorem edgeId_ofNat (number : Nat) : edgeId number = ("edge-" ++ number.repr : Text) := by
  rw [edgeId, Int.toString_eq_repr, Int.repr_eq_if, if_pos (Int.natCast_nonneg _),
    Int.toNat_natCast]

theorem pathId_ofNat (number place : Nat) :
    pathId number place = "edge-" ++ (number.repr ++ "-" ++ place.repr) := by
  rw [pathId, edgeId_ofNat, Int.toString_eq_repr, Int.repr_eq_if, if_pos (Int.natCast_nonneg _),
    Int.toNat_natCast]
  simp only [Text.append_assoc]

theorem edgeId_ne_pathId (first second place : Nat) : edgeId first ≠ pathId second place := by
  intro same
  rw [edgeId_ofNat, pathId_ofNat] at same
  have number := congrArg Text.chars (Text.append_right_inj _ |>.mp same)
  apply dash_not_mem_repr first
  rw [Text.chars_ofString] at number
  rw [number, Text.chars_append, Text.chars_append]
  exact List.mem_append_left _ (List.mem_append_right _ (by decide))

theorem append_dash_inj {first second : Nat} {left right : List Char}
    (same : first.repr.toList ++ '-' :: left = second.repr.toList ++ '-' :: right) :
    first.repr.toList = second.repr.toList ∧ left = right := by
  have digits (n : Nat) : ∀ c ∈ n.repr.toList, (c != '-') = true := by
    intro c member
    have notDash : c ≠ '-' := fun equal => dash_not_mem_repr n (equal ▸ member)
    simpa using notDash
  have prefixes := congrArg (List.takeWhile (· != '-')) same
  rw [List.takeWhile_append_of_pos (digits first), List.takeWhile_append_of_pos (digits second)]
    at prefixes
  have equal : first.repr.toList = second.repr.toList := by simpa using prefixes
  rw [equal] at same
  exact ⟨equal, (List.cons.inj (List.append_cancel_left same)).2⟩

theorem pathId_injective {first second left right : Nat}
    (same : pathId first left = pathId second right) : first = second ∧ left = right := by
  rw [pathId_ofNat, pathId_ofNat] at same
  have chars := congrArg Text.chars (Text.append_right_inj _ |>.mp same)
  simp only [Text.chars_append, Text.chars_ofString] at chars
  have mark : "-".toList = ['-'] := by decide
  rw [mark, List.append_assoc, List.append_assoc] at chars
  obtain ⟨numbers, places⟩ := append_dash_inj chars
  exact ⟨repr_injective (String.toList_inj.mp numbers),
    repr_injective (String.toList_inj.mp places)⟩

theorem stepId_head (number : Int) : (stepId number).chars.take 4 = ['s', 't', 'e', 'p'] := by
  rw [stepId, Text.chars_append]
  rfl

theorem stepId_ne_entry (number : Int) : stepId number ≠ Node.entry.id := by
  intro same
  have head := stepId_head number
  rw [same] at head
  exact absurd head (by decide)

theorem stepId_ne_terminal (number : Int) : stepId number ≠ Node.terminal.id := by
  intro same
  have head := stepId_head number
  rw [same] at head
  exact absurd head (by decide)

theorem stepId_ne_edgeId (step edge : Int) : stepId step ≠ edgeId edge := by
  intro same
  have head := stepId_head step
  rw [same, edgeId, Text.chars_append] at head
  exact absurd head (by rw [List.take_append_of_le_length (by decide)]; decide)

end Workflow
