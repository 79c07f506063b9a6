import SchemaGraft.Json.Reader
import SchemaGraft.Number.Shortest
import SchemaGraft.Text.Quoted
import SchemaGraft.Value.Basic

/-!
# Values in messages

The form in which messages show a data value: texts in quotation marks, `None`, `True` and `False` for
the constants, and brackets around the parts of a collection.
-/

namespace SchemaGraft

def Scalar.display : Scalar → Text
  | .null => "None"
  | .bool true => "True"
  | .bool false => "False"
  | .int n => Text.ofInt n
  | .float x => Text.ofChars x.numeral
  | .text t => t.quoted
  | .bytes bs => bs.quoted
  | .date d => d.display
  | .timestamp t => t.display

namespace Value

mutual

def display : Value → Text
  | .scalar s => s.display
  | .list [] => "[]"
  | .list (v :: rest) => "[" ++ display v ++ displayItems rest ++ "]"
  | .pair a b => "(" ++ display a ++ ", " ++ display b ++ ")"
  | .set [] => "set()"
  | .set members => "\x7b" ++ Text.join ", " (members.map Scalar.display) ++ "\x7d"
  | .object [] => "\x7b\x7d"
  | .object ((k, v) :: rest) =>
    "\x7b" ++ k.display ++ ": " ++ display v ++ displayMembers rest ++ "\x7d"
  | .cycle false => "[...]"
  | .cycle true => "\x7b...\x7d"

def displayItems : List Value → Text
  | [] => []
  | v :: rest => ", " ++ display v ++ displayItems rest

def displayMembers : List (Scalar × Value) → Text
  | [] => []
  | (k, v) :: rest => ", " ++ k.display ++ ": " ++ display v ++ displayMembers rest

end

end Value

/-! ## Integers that cannot be shown -/

/-- Can the scalar be shown?  Integers with too many digits cannot. -/
def Scalar.isPrintable : Scalar → Bool
  | .int n => n.natAbs < Nat.pow 10 Json.maxIntegerDigits
  | _ => true

namespace Value

mutual

/-- Can all scalars in the value be shown? -/
def isPrintable : Value → Bool
  | .scalar s => s.isPrintable
  | .list items => printableItems items
  | .pair a b => isPrintable a && isPrintable b
  | .set members => members.all Scalar.isPrintable
  | .object ms => printableMembers ms
  | .cycle _ => true

def printableItems : List Value → Bool
  | [] => true
  | v :: rest => isPrintable v && printableItems rest

def printableMembers : List (Scalar × Value) → Bool
  | [] => true
  | (k, v) :: rest => k.isPrintable && isPrintable v && printableMembers rest

end

end Value

end SchemaGraft
