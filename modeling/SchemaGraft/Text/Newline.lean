/-!
# Line endings

Text files may end their lines with a line feed, a carriage return, or both in a row.  Everything that
reads a text file sees line feeds only.
-/

namespace SchemaGraft

/-- Every carriage return, with the line feed that may follow it, becomes one line feed. -/
def unifyNewlines : List Char → List Char
  | [] => []
  | '\r' :: '\n' :: rest => '\n' :: unifyNewlines rest
  | '\r' :: rest => '\n' :: unifyNewlines rest
  | c :: rest => c :: unifyNewlines rest

end SchemaGraft
