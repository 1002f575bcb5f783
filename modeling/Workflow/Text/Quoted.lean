import Workflow.Text.Basic
import Workflow.Text.Digit

/-! Double-quoted texts with backslash escapes. Control characters are always escaped; a charset
says whether characters beyond plain ones may stand for themselves. -/

namespace Workflow.Text

inductive Charset where
  | every
  | plain
  deriving DecidableEq, Repr

/-- The sixteen-bit units of a character: one, or a pair beyond the first plane. -/
def units16 (c : Char) : List Nat :=
  if c.toNat < 0x10000 then [c.toNat]
  else [0xd800 + (c.toNat - 0x10000) / 0x400, 0xdc00 + (c.toNat - 0x10000) % 0x400]

def unitEscape (unit : Nat) : List Char := '\\' :: 'u' :: hexFixed 4 unit

def Charset.allows : Charset → Char → Bool
  | .every, c => decide (0x20 ≤ c.toNat)
  | .plain, c => decide (0x20 ≤ c.toNat) && decide (c.toNat < 0x7f)

def quotedChar (charset : Charset) (c : Char) : List Char :=
  if c = '\x22' then ['\\', '\x22']
  else if c = '\\' then ['\\', '\\']
  else if c = '\n' then ['\\', 'n']
  else if c = '\r' then ['\\', 'r']
  else if c = '\t' then ['\\', 't']
  else if c = '\x08' then ['\\', 'b']
  else if c = '\x0c' then ['\\', 'f']
  else if charset.allows c then [c]
  else (units16 c).flatMap unitEscape

def quotedLetter (charset : Charset) : Letter → List Letter
  | .char c => (quotedChar charset c).map .char
  | .half unit =>
    match charset with
    | .every => [.half unit]
    | .plain => (unitEscape (Letter.half unit).code).map .char

def quoted (charset : Charset) (text : Text) : Text :=
  ⟨.char '\x22' :: text.letters.flatMap (quotedLetter charset) ++ [.char '\x22']⟩

end Workflow.Text
