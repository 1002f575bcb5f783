import Workflow.Text.Quoted

/-! The three ways in which a character stands in quotes, and the digits of the longest one. -/

namespace Workflow.Text

def shortEscapes : List (Char × Char) :=
  [('\x22', '\x22'), ('\\', '\\'), ('n', '\n'), ('r', '\r'), ('t', '\t'), ('b', '\x08'),
    ('f', '\x0c')]

/-- A character is written as itself, as a short escape, or as an escape of its unit. -/
theorem quotedChar_forms (c : Char) :
    (quotedChar .every c = [c] ∧ 0x20 ≤ c.toNat ∧ c ≠ '\x22' ∧ c ≠ '\\') ∨
      (∃ letter, quotedChar .every c = ['\\', letter] ∧ (letter, c) ∈ shortEscapes) ∨
      (quotedChar .every c = '\\' :: 'u' :: hexFixed 4 c.toNat ∧ c.toNat < 0x20) := by
  by_cases quote : c = '\x22'
  · subst quote
    exact .inr (.inl ⟨'\x22', by decide⟩)
  by_cases backslash : c = '\\'
  · subst backslash
    exact .inr (.inl ⟨'\\', by decide⟩)
  by_cases newline : c = '\n'
  · subst newline
    exact .inr (.inl ⟨'n', by decide⟩)
  by_cases carriage : c = '\r'
  · subst carriage
    exact .inr (.inl ⟨'r', by decide⟩)
  by_cases tab : c = '\t'
  · subst tab
    exact .inr (.inl ⟨'t', by decide⟩)
  by_cases backspace : c = '\x08'
  · subst backspace
    exact .inr (.inl ⟨'b', by decide⟩)
  by_cases formFeed : c = '\x0c'
  · subst formFeed
    exact .inr (.inl ⟨'f', by decide⟩)
  by_cases visible : 0x20 ≤ c.toNat
  · refine .inl ⟨?_, visible, quote, backslash⟩
    simp [quotedChar, quote, backslash, newline, carriage, tab, backspace, formFeed,
      Charset.allows, visible]
  · have unit : units16 c = [c.toNat] := if_pos (by omega)
    refine .inr (.inr ⟨?_, by omega⟩)
    simp [quotedChar, quote, backslash, newline, carriage, tab, backspace, formFeed,
      Charset.allows, visible, unit, unitEscape]

def quotedChars (text : List Char) : List Char :=
  '\x22' :: text.flatMap (quotedChar .every) ++ ['\x22']

theorem quoted_ofChars (text : List Char) :
    quoted .every (ofChars text) = ofChars (quotedChars text) := by
  ext1
  simp [quoted, quotedChars, quotedLetter, List.flatMap_map, List.map_flatMap]

theorem quotedChars_before (text tail : List Char) :
    quotedChars text ++ tail =
      '\x22' :: (text.flatMap (quotedChar .every) ++ '\x22' :: tail) := by
  rw [quotedChars, List.append_assoc, List.cons_append, List.singleton_append]

theorem mem_quoted {c : Char} {text : Text} (member : c ∈ text.chars)
    (raw : quotedChar .every c = [c]) : c ∈ (quoted .every text).chars := by
  obtain ⟨letter, inside, rfl⟩ := List.mem_map.mp member
  have kept : letter ∈ quotedLetter .every letter := by
    cases letter with
    | char c => exact List.mem_map_of_mem (raw ▸ List.mem_cons_self)
    | half unit => exact List.mem_cons_self
  refine List.mem_map_of_mem (List.mem_cons_of_mem _ (List.mem_append_left _ ?_))
  exact List.mem_flatMap.mpr ⟨letter, inside, kept⟩

theorem hexDigit?_hexDigit (value : Nat) : hexDigit? (hexDigit value) = some (value % 16) := by
  have each : ∀ digit < 16, hexDigit? (Nat.digitChar digit) = some digit := by decide
  exact each (value % 16) (Nat.mod_lt value (by decide))

theorem hexFixed_four (unit : Nat) :
    hexFixed 4 unit =
      [hexDigit (unit / 16 / 16 / 16), hexDigit (unit / 16 / 16), hexDigit (unit / 16),
        hexDigit unit] := rfl

end Workflow.Text
