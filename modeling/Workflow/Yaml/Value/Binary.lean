import Workflow.Yaml.Error

/-! Bytes written with sixty-four characters. Characters outside the alphabet are passed over, and
the padding must complete a group of four. -/

namespace Workflow.Yaml.Binary

def sextet? (c : Char) : Option Nat :=
  if 'A' ≤ c ∧ c ≤ 'Z' then some (c.toNat - 65)
  else if 'a' ≤ c ∧ c ≤ 'z' then some (c.toNat - 71)
  else if '0' ≤ c ∧ c ≤ '9' then some (c.toNat + 4)
  else if c = '+' then some 62
  else if c = '/' then some 63
  else none

/-- Reading in the middle of a group: how many sextets and paddings it has, and its last bits. -/
structure Group where
  count : Nat
  pads : Nat
  left : Nat
  deriving DecidableEq, Repr

def next (group : Group) (sextet : Nat) : Option UInt8 × Group :=
  match group.count with
  | 0 => (none, ⟨1, 0, sextet⟩)
  | 1 => (some (UInt8.ofNat (group.left * 4 + sextet / 16)), ⟨2, 0, sextet % 16⟩)
  | 2 => (some (UInt8.ofNat (group.left * 16 + sextet / 4)), ⟨3, 0, sextet % 4⟩)
  | _ => (some (UInt8.ofNat (group.left * 64 + sextet)), ⟨0, 0, 0⟩)

def bytesFrom (group : Group) : List Char → Except Error (List UInt8)
  | [] => if group.count = 0 then .ok [] else .error .malformed
  | c :: rest =>
    if c = '=' then
      if 2 ≤ group.count ∧ 4 ≤ group.count + (group.pads + 1) then .ok []
      else bytesFrom { group with pads := if 2 ≤ group.count then group.pads + 1 else group.pads } rest
    else
      match sextet? c with
      | none => bytesFrom group rest
      | some sextet =>
        match next group sextet with
        | (some byte, group) => (bytesFrom group rest).map (byte :: ·)
        | (none, group) => bytesFrom group rest

def bytes (text : List Char) : Except Error (List UInt8) :=
  if text.all fun c => decide (c.toNat < 128) then bytesFrom ⟨0, 0, 0⟩ text else .error .malformed

example : (bytes "aGk=".toList).toOption = some [104, 105] := by decide +kernel
example : (bytes "a".toList).toOption = none := by decide +kernel

end Workflow.Yaml.Binary
