import SchemaGraft.Text.Codepoint

/-!
# Command templates

The parts of a command may hold placeholders, which are names between braces.  Only the names that have a
value are replaced; all other braces stay as they are.
-/

namespace SchemaGraft

namespace Template

def placeholder (name : Text) : Text :=
  .scalar '\x7b' :: name ++ [.scalar '\x7d']

/-- One part of a command with its placeholders replaced, one name after the other. -/
def fill (values : List (Text × Text)) (part : Text) : Text :=
  values.foldl (fun t v => t.replaceAll (placeholder v.1) v.2) part

def render (values : List (Text × Text)) (parts : List Text) : List Text :=
  parts.map (fill values)

end Template

end SchemaGraft
