import SchemaGraft.Text.Utf8

/-!
# Base 64

Decoding of text in base 64.  Characters outside the alphabet are passed over; padding ends the text once
it completes a group of four.
-/

namespace SchemaGraft

namespace Base64

/-- The six bits that a character of the alphabet stands for. -/
def sextet? (c : Char) : Option Nat :=
  if 'A' ≤ c ∧ c ≤ 'Z' then some (c.toNat - 0x41)
  else if 'a' ≤ c ∧ c ≤ 'z' then some (c.toNat - 0x61 + 26)
  else if '0' ≤ c ∧ c ≤ '9' then some (c.toNat - 0x30 + 52)
  else if c = '+' then some 62
  else if c = '/' then some 63
  else none

/-- What has been read of a group of four characters. -/
inductive Group where
  | empty
  | one (bits : Nat)
  -- two characters and some padding; four bits are left over
  | two (rest pads : Nat)
  -- three characters; two bits are left over
  | three (rest : Nat)

/-- Adds six bits to a group: the group after it and the bytes that are complete. -/
def Group.push (v : Nat) : Group → Group × Bytes
  | .empty => (.one v, [])
  | .one bits => (.two (v % 16) 0, [(bits * 4 + v / 16).toUInt8])
  | .two rest _ => (.three (v % 4), [(rest * 16 + v / 4).toUInt8])
  | .three rest => (.empty, [(rest * 64 + v).toUInt8])

/-- Adds a padding character to a group; nothing is left to read when the group is complete. -/
def Group.pad : Group → Option Group
  | .two rest pads => if pads = 1 then none else some (.two rest (pads + 1))
  | .three _ => none
  | g => some g

/-- Decodes a text with the group `g` open; a group that is left open has no meaning. -/
def decodeFrom (g : Group) : List Char → Option Bytes
  | [] =>
    match g with
    | .empty => some []
    | _ => none
  | c :: rest =>
    if c = '=' then
      match g.pad with
      | some g => decodeFrom g rest
      | none => some []
    else
      match sextet? c with
      | some v =>
        let (g, out) := g.push v
        (decodeFrom g rest).map (out ++ ·)
      | none => decodeFrom g rest

def decode? (cs : List Char) : Option Bytes :=
  decodeFrom .empty cs

end Base64

end SchemaGraft
