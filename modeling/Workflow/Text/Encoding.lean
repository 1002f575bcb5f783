import Workflow.Text.Basic

/-! Bytes as text. The first bytes of a text tell how it is encoded: by a mark of byte order, or else by
the zeros that wide units leave in its first characters. -/

namespace Workflow.Text

def pairCode? (high low : Nat) : Option Nat :=
  if 0xd800 ≤ high ∧ high < 0xdc00 ∧ 0xdc00 ≤ low ∧ low < 0xe000 then
    some (0x10000 + (high - 0xd800) * 0x400 + (low - 0xdc00))
  else none

/-- The number of a character in bytes that continue it; it has the shortest form. -/
def continued? (least : Nat) : Nat → Nat → List UInt8 → Option (Nat × List UInt8)
  | 0, code, rest => if least ≤ code ∧ code < 0x110000 then some (code, rest) else none
  | _ + 1, _, [] => none
  | more + 1, code, byte :: rest =>
    if 0x80 ≤ byte.toNat ∧ byte.toNat < 0xc0 then
      continued? least more (code * 0x40 + (byte.toNat - 0x80)) rest
    else none

/-- The number of the first character, and the bytes after it. -/
def narrow? : List UInt8 → Option (Nat × List UInt8)
  | [] => none
  | byte :: rest =>
    let first := byte.toNat
    if first < 0x80 then some (first, rest)
    else if first < 0xc0 then none
    else if first < 0xe0 then continued? 0x80 1 (first - 0xc0) rest
    else if first < 0xf0 then continued? 0x800 2 (first - 0xe0) rest
    else if first < 0xf8 then continued? 0x10000 3 (first - 0xf0) rest
    else none

def unit? (lowFirst : Bool) : List UInt8 → Option (Nat × List UInt8)
  | a :: b :: rest =>
    some (if lowFirst then b.toNat * 0x100 + a.toNat else a.toNat * 0x100 + b.toNat, rest)
  | _ => none

def wide? (lowFirst : Bool) (source : List UInt8) : Option (Nat × List UInt8) :=
  match unit? lowFirst source with
  | none => none
  | some (high, rest) =>
    match unit? lowFirst rest with
    | none => some (high, rest)
    | some (low, after) =>
      match pairCode? high low with
      | some code => some (code, after)
      | none => some (high, rest)

def widest? (lowFirst : Bool) (source : List UInt8) : Option (Nat × List UInt8) :=
  match unit? lowFirst source with
  | none => none
  | some (first, rest) =>
    match unit? lowFirst rest with
    | none => none
    | some (second, after) =>
      let code := if lowFirst then second * 0x10000 + first else first * 0x10000 + second
      if code < 0x110000 then some (code, after) else none

inductive Encoding where
  | utf8
  | utf16 (lowFirst : Bool)
  | utf32 (lowFirst : Bool)
  deriving DecidableEq, Repr

namespace Encoding

def next? : Encoding → List UInt8 → Option (Nat × List UInt8)
  | utf8 => narrow?
  | utf16 lowFirst => wide? lowFirst
  | utf32 lowFirst => widest? lowFirst

/-- Each character takes at least one byte. -/
def lettersFrom? (encoding : Encoding) : Nat → List UInt8 → Option (List Letter)
  | _, [] => some []
  | 0, _ :: _ => none
  | fuel + 1, source =>
    match encoding.next? source with
    | none => none
    | some (code, rest) => (lettersFrom? encoding fuel rest).map (.ofCode code :: ·)

def text? (encoding : Encoding) (source : List UInt8) : Option Text :=
  (encoding.lettersFrom? source.length source).map .mk

/-- The marks of byte order; one that begins with another comes before it. -/
def marks : List (List UInt8 × Encoding) :=
  [([0x00, 0x00, 0xfe, 0xff], utf32 false), ([0xff, 0xfe, 0x00, 0x00], utf32 true),
    ([0xfe, 0xff], utf16 false), ([0xff, 0xfe], utf16 true), ([0xef, 0xbb, 0xbf], utf8)]

def ofStart : List UInt8 → Encoding
  | a :: b :: c :: d :: _ =>
    if a = 0 then if b = 0 then utf32 false else utf16 false
    else if b = 0 then if c = 0 ∧ d = 0 then utf32 true else utf16 true
    else utf8
  | [a, b] => if a = 0 then utf16 false else if b = 0 then utf16 true else utf8
  | _ => utf8

end Encoding

def decode? (source : List UInt8) : Option Text :=
  match Encoding.marks.find? fun (mark, _) => mark.isPrefixOf source with
  | some (mark, encoding) => encoding.text? (source.drop mark.length)
  | none => (Encoding.ofStart source).text? source

example : decode? [0xef, 0xbb, 0xbf, 0x7b, 0x7d] = some "\x7b\x7d" := by decide +kernel
example : decode? [0x7b, 0x00, 0x7d, 0x00] = some "\x7b\x7d" := by decide +kernel
example : decode? [0xfe, 0xff, 0xd8, 0x3d, 0xde, 0x00] = some "😀" := by decide +kernel
example : decode? [0xc0, 0x80] = none ∧ decode? [0xed, 0xa0, 0x80] = some ⟨[.half 0]⟩ := by decide +kernel

end Workflow.Text
