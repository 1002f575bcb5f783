/-! Texts: rows of code points, in which half of a surrogate pair may stand alone. -/

namespace Workflow

inductive Letter where
  | char (c : Char)
  /-- Half of a pair, counted from the first one. -/
  | half (unit : Fin 0x800)
  deriving DecidableEq, Repr

namespace Letter

def ofCode (code : Nat) : Letter :=
  if paired : 0xd800 ≤ code ∧ code < 0xe000 then .half ⟨code - 0xd800, by omega⟩
  else .char (Char.ofNat code)

def code : Letter → Nat
  | char c => c.toNat
  | half unit => 0xd800 + unit

def char? : Letter → Option Char
  | char c => some c
  | half _ => none

/-- The character by which a letter is classed: half a pair counts as the mark for no character. -/
def shape : Letter → Char
  | char c => c
  | half _ => '\ufffd'

end Letter

structure Text where
  letters : List Letter
  deriving DecidableEq, Repr

namespace Text

def ofChars (chars : List Char) : Text := ⟨chars.map .char⟩

@[coe] def ofString (source : String) : Text := ofChars source.toList

instance : Coe String Text := ⟨ofString⟩

instance : Inhabited Text := ⟨""⟩

instance : Append Text := ⟨fun first second => ⟨first.letters ++ second.letters⟩⟩

def chars (text : Text) : List Char := text.letters.map Letter.shape

def isEmpty (text : Text) : Bool := text.letters.isEmpty

/-- Only a text in which no half of a pair stands alone has an encoding. -/
def isEncodable (text : Text) : Bool := text.letters.all fun letter => letter.char?.isSome

def all (p : Char → Bool) (text : Text) : Bool := text.letters.all fun letter => letter.char?.any p

def intercalate (separator : Text) (texts : List Text) : Text :=
  ⟨List.intercalate separator.letters (texts.map letters)⟩

variable {first second third : Text} {chars more : List Char} {source other : String}

@[ext] theorem ext (same : first.letters = second.letters) : first = second := by
  cases first
  cases second
  exact congrArg mk same

@[simp] theorem letters_append : (first ++ second).letters = first.letters ++ second.letters := rfl

@[simp] theorem letters_ofChars : (ofChars chars).letters = chars.map .char := rfl

@[simp] theorem letters_ofString : (ofString source).letters = source.toList.map .char := rfl

@[simp] theorem chars_append : (first ++ second).chars = first.chars ++ second.chars := by
  simp [Text.chars]

@[simp] theorem chars_ofChars : (ofChars chars).chars = chars := by
  simp [Text.chars, Function.comp_def, Letter.shape]

@[simp] theorem chars_ofString : (ofString source).chars = source.toList := chars_ofChars

theorem ofChars_append : ofChars (chars ++ more) = ofChars chars ++ ofChars more := by
  ext1
  simp

theorem ofChars_injective (same : ofChars chars = ofChars more) : chars = more := by
  simpa using congrArg Text.chars same

@[simp] theorem ofChars_inj : ofChars chars = ofChars more ↔ chars = more :=
  ⟨ofChars_injective, congrArg ofChars⟩

@[simp] theorem ofString_inj : ofString source = ofString other ↔ source = other := by
  simp [ofString, String.toList_inj]

@[simp] theorem append_right_inj (first : Text) :
    first ++ second = first ++ third ↔ second = third := by
  simp [Text.ext_iff]

@[simp] theorem append_left_inj (first : Text) :
    second ++ first = third ++ first ↔ second = third := by
  simp [Text.ext_iff]

theorem append_assoc : first ++ second ++ third = first ++ (second ++ third) := by
  simp [Text.ext_iff]

@[simp] theorem isEmpty_iff : first.isEmpty = true ↔ first = "" := by
  simp [isEmpty, Text.ext_iff]

@[simp] theorem isEmpty_eq_false_iff : first.isEmpty = false ↔ first ≠ "" := by
  rw [← Bool.not_eq_true, isEmpty_iff]

@[simp] theorem isEncodable_append : (first ++ second).isEncodable = (first.isEncodable && second.isEncodable) := by
  simp [isEncodable]

@[simp] theorem isEncodable_ofChars : (ofChars chars).isEncodable = true := by
  simp [isEncodable, Letter.char?]

@[simp] theorem isEncodable_ofString : (ofString source).isEncodable = true := isEncodable_ofChars

@[simp] theorem all_append {p : Char → Bool} :
    (first ++ second).all p = (first.all p && second.all p) := by
  simp [Text.all]

@[simp] theorem all_ofChars {p : Char → Bool} : (ofChars chars).all p = chars.all p := by
  simp [Text.all, Letter.char?, Function.comp_def]

theorem ofChars_chars (encodable : first.isEncodable = true) : ofChars first.chars = first := by
  ext1
  rw [letters_ofChars, Text.chars, List.map_map]
  refine (List.map_congr_left fun letter member => ?_).trans (List.map_id _)
  have known := List.all_eq_true.mp encodable letter member
  cases letter with
  | char c => rfl
  | half unit => cases known

theorem eq_ofChars_iff (unmarked : '\ufffd' ∉ chars) : first = ofChars chars ↔ first.chars = chars := by
  constructor
  · rintro rfl
    exact chars_ofChars
  · rintro rfl
    refine (ofChars_chars (List.all_eq_true.mpr fun letter member => ?_)).symm
    cases letter with
    | char c => rfl
    | half unit => exact absurd (@List.mem_map_of_mem _ _ _ _ Letter.shape member) unmarked

theorem isEncodable_of_all {p : Char → Bool} (all : first.all p = true) : first.isEncodable = true := by
  refine List.all_eq_true.mpr fun letter member => ?_
  have known := List.all_eq_true.mp all letter member
  cases letter with
  | char c => rfl
  | half unit => cases known

theorem of_all {p : Char → Bool} (all : first.all p = true) : ∀ c ∈ first.chars, p c = true := by
  rw [← ofChars_chars (isEncodable_of_all all), all_ofChars] at all
  exact List.all_eq_true.mp all

end Text

end Workflow
