import SchemaGraft.Json.Basic
import SchemaGraft.Number.Shortest

/-!
# Writing JSON

The two written forms of a JSON value.  The canonical form has one member or item to a line, two
blanks of indentation for each level, members in the order of their names, and a line feed at the end.
The compact form has no blanks at all.  Both leave every character outside ASCII as it is.
-/

namespace SchemaGraft

namespace Json

/-! ## Strings and numbers -/

/-- One code point of a string: only the quotation mark, the backslash and the control characters below
the blank are escaped. -/
def escape (c : Codepoint) : Text :=
  match c with
  | .scalar '"' => "\\\""
  | .scalar '\\' => "\\\\"
  | .scalar '\n' => "\\n"
  | .scalar '\r' => "\\r"
  | .scalar '\t' => "\\t"
  | .scalar '\x08' => "\\b"
  | .scalar '\x0c' => "\\f"
  | c => if c.value < 0x20 then "\\u" ++ Text.ofChars (Digits.hexadecimal 4 c.value) else [c]

def quote (t : Text) : Text :=
  .scalar '"' :: t.flatMap escape ++ [.scalar '"']

/-- A floating-point number; one without a finite value has the names that readers accept. -/
def number : Binary64 → Text
  | .nan _ => "NaN"
  | .infinite false => "Infinity"
  | .infinite true => "-Infinity"
  | x => Text.ofChars x.numeral

/-! ## Canonical form -/

/-- A line feed and the indentation of a level. -/
def newline (level : Nat) : Text :=
  .scalar '\n' :: List.replicate (2 * level) (.scalar ' ')

mutual

/-- A value in the canonical layout, at a level of indentation; the order of members is kept. -/
def render (level : Nat) : Json → Text
  | .null => "null"
  | .bool true => "true"
  | .bool false => "false"
  | .int n => Text.ofInt n
  | .float x => number x
  | .text t => quote t
  | .list [] => "[]"
  | .list (v :: rest) =>
    "[" ++ newline (level + 1) ++ render (level + 1) v ++ renderItems (level + 1) rest ++
      newline level ++ "]"
  | .object [] => "\x7b\x7d"
  | .object ((n, v) :: rest) =>
    "\x7b" ++ newline (level + 1) ++ quote n ++ ": " ++ render (level + 1) v ++
      renderMembers (level + 1) rest ++ newline level ++ "\x7d"

def renderItems (level : Nat) : List Json → Text
  | [] => []
  | v :: rest => "," ++ newline level ++ render level v ++ renderItems level rest

def renderMembers (level : Nat) : List (Text × Json) → Text
  | [] => []
  | (n, v) :: rest =>
    "," ++ newline level ++ quote n ++ ": " ++ render level v ++ renderMembers level rest

end

def canonical (v : Json) : Text :=
  render 0 v.sorted ++ "\n"

/-! ## Compact form -/

mutual

/-- A value without blanks; the order of members is kept. -/
def compact : Json → Text
  | .null => "null"
  | .bool true => "true"
  | .bool false => "false"
  | .int n => Text.ofInt n
  | .float x => number x
  | .text t => quote t
  | .list [] => "[]"
  | .list (v :: rest) => "[" ++ compact v ++ compactItems rest ++ "]"
  | .object [] => "\x7b\x7d"
  | .object ((n, v) :: rest) =>
    "\x7b" ++ quote n ++ ":" ++ compact v ++ compactMembers rest ++ "\x7d"

def compactItems : List Json → Text
  | [] => []
  | v :: rest => "," ++ compact v ++ compactItems rest

def compactMembers : List (Text × Json) → Text
  | [] => []
  | (n, v) :: rest => "," ++ quote n ++ ":" ++ compact v ++ compactMembers rest

end

end Json

end SchemaGraft
