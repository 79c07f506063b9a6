import SchemaGraft.Text.Codepoint

/-!
# Blank characters

The white space of the Unicode standard, and the slightly larger class that also counts the four
information separators.
-/

namespace SchemaGraft

namespace Codepoint

def isBlank (c : Codepoint) : Bool :=
  let n := c.value
  (0x9 ≤ n && n ≤ 0xD) || n == 0x20 || n == 0x85 || n == 0xA0 || n == 0x1680 ||
    (0x2000 ≤ n && n ≤ 0x200A) || n == 0x2028 || n == 0x2029 || n == 0x202F || n == 0x205F ||
    n == 0x3000

/-- White space, or one of the information separators `U+001C` to `U+001F`. -/
def isSpacing (c : Codepoint) : Bool :=
  c.isBlank || (0x1C ≤ c.value && c.value ≤ 0x1F)

end Codepoint

namespace Text

/-- The words of a text: its maximal parts without spacing. -/
def words (t : Text) : List Text :=
  go [] t
where
  /-- `current` is the word being read, backwards. -/
  go (current : Text) : Text → List Text
    | [] => if current.isEmpty then [] else [current.reverse]
    | c :: rest =>
      if c.isSpacing then
        if current.isEmpty then go [] rest else current.reverse :: go [] rest
      else
        go (c :: current) rest

end Text

end SchemaGraft
