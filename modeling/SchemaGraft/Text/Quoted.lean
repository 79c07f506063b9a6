import SchemaGraft.Text.Digits
import SchemaGraft.Text.Printable
import SchemaGraft.Text.Utf8

/-!
# Quoted texts

The quoted form in which messages show a text or a byte sequence: between single quotes, or between
double quotes when the text holds a single quote and no double quote.  What cannot be shown as it is
becomes an escape.
-/

namespace SchemaGraft

namespace Text

/-- The quotation mark for a text: single, unless that would need an escape and double would not. -/
def quoteMark (hasSingle hasDouble : Bool) : Char :=
  if hasSingle && !hasDouble then '"' else '\''

/-- One code point between quotation marks `mark`. -/
def quoteCodepoint (mark : Char) (c : Codepoint) : Text :=
  let n := c.value
  if c = .scalar mark ∨ c = .scalar '\\' then [.scalar '\\', c]
  else if c = .scalar '\t' then "\\t"
  else if c = .scalar '\n' then "\\n"
  else if c = .scalar '\r' then "\\r"
  else if c.isPrintable then [c]
  else if n ≤ 0xFF then "\\x" ++ ofChars (Digits.hexadecimal 2 n)
  else if n ≤ 0xFFFF then "\\u" ++ ofChars (Digits.hexadecimal 4 n)
  else "\\U" ++ ofChars (Digits.hexadecimal 8 n)

def quoted (t : Text) : Text :=
  let mark := quoteMark (t.holds '\'') (t.holds '"')
  .scalar mark :: t.flatMap (quoteCodepoint mark) ++ [.scalar mark]

end Text

namespace Bytes

def quoteByte (mark : Char) (b : UInt8) : List Char :=
  let c := Char.ofNat b.toNat
  if c = mark ∨ c = '\\' then ['\\', c]
  else if c = '\t' then ['\\', 't']
  else if c = '\n' then ['\\', 'n']
  else if c = '\r' then ['\\', 'r']
  else if 0x20 ≤ b ∧ b < 0x7F then [c]
  else ['\\', 'x'] ++ Digits.hexadecimal 2 b.toNat

/-- A byte sequence in quotation marks, with a `b` in front. -/
def quoted (bs : Bytes) : Text :=
  let mark := Text.quoteMark (bs.contains 0x27) (bs.contains 0x22)
  Text.ofChars ('b' :: mark :: bs.flatMap (quoteByte mark) ++ [mark])

end Bytes

end SchemaGraft
