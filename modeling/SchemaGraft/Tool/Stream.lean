import SchemaGraft.Text.Utf8
import SchemaGraft.World.Action

/-!
# Passing on what tools write

A tool writes bytes in portions of any size.  They are read piece by piece and decoded as they come, with
characters that a piece cuts in two put together again.
-/

namespace SchemaGraft

namespace ToolStream

/-- The greatest number of bytes that are read at once. -/
def maxRead : Nat := 4096

/-- A portion in pieces of at most `maxRead` bytes; an empty portion has none. -/
def pieces : Bytes → List Bytes
  | [] => []
  | b :: rest => (b :: rest.take (maxRead - 1)) :: pieces (rest.drop (maxRead - 1))
termination_by bs => bs.length
decreasing_by
  simp only [List.length_drop, List.length_cons]
  omega

/-- The texts that become known piece by piece, and at the end. -/
def texts (s : Utf8.State) : List Bytes → List (List Char)
  | [] => [Utf8.finish s]
  | b :: rest =>
    let (s, out) := Utf8.feed s b
    out :: texts s rest

/-- The texts that are passed on for a stream of portions; none of them is empty. -/
def pump (portions : List Bytes) : List Text :=
  ((texts .between (portions.flatMap pieces)).filter (!·.isEmpty)).map Text.ofChars

def forward (stream : ToolStream) (portions : List Bytes) : Action Unit :=
  (pump portions).forM fun t => Action.emit (.received stream t)

end ToolStream

end SchemaGraft
