import Workflow.Text.Basic
import Workflow.Text.Digit
import Workflow.Text.Printable

/-! Texts as messages show them: between single quotes, or double ones where that saves an escape,
with a backslash form for every character that cannot be shown. -/

namespace Workflow.Text

def singleQuote : Char := '\x27'
def doubleQuote : Char := '\x22'

def literalChar (quote c : Char) : List Char :=
  if c = quote ∨ c = '\\' then ['\\', c]
  else if c = '\t' then ['\\', 't']
  else if c = '\n' then ['\\', 'n']
  else if c = '\r' then ['\\', 'r']
  else if isPrintable c then [c]
  else if c.toNat < 0x100 then '\\' :: 'x' :: hexFixed 2 c.toNat
  else if c.toNat < 0x10000 then '\\' :: 'u' :: hexFixed 4 c.toNat
  else '\\' :: 'U' :: hexFixed 8 c.toNat

def literalLetter (quote : Char) : Letter → List Char
  | .char c => literalChar quote c
  | .half unit => '\\' :: 'u' :: hexFixed 4 (Letter.half unit).code

def literalQuote (text : List Char) : Char :=
  if text.contains singleQuote && !text.contains doubleQuote then doubleQuote else singleQuote

def literalChars (text : Text) : List Char :=
  let quote := literalQuote text.chars
  quote :: text.letters.flatMap (literalLetter quote) ++ [quote]

def literal (text : Text) : Text := ofChars (literalChars text)

def literalByte (quote : Char) (byte : UInt8) : List Char :=
  let c := Char.ofNat byte.toNat
  if c = quote ∨ c = '\\' then ['\\', c]
  else if c = '\t' then ['\\', 't']
  else if c = '\n' then ['\\', 'n']
  else if c = '\r' then ['\\', 'r']
  else if 0x20 ≤ byte.toNat ∧ byte.toNat < 0x7f then [c]
  else '\\' :: 'x' :: hexFixed 2 byte.toNat

def literalBytes (bytes : List UInt8) : List Char :=
  let quote := literalQuote (bytes.map fun byte => Char.ofNat byte.toNat)
  'b' :: quote :: bytes.flatMap (literalByte quote) ++ [quote]

end Workflow.Text
