import SchemaGraft.Json.Reader
import SchemaGraft.Number.Shortest
import SchemaGraft.Value.Basic

/-!
# Data values as JSON

The JSON value that stands for a data value in a document.  Numbers without a finite value become null,
dates their ISO form, bytes the text they encode, and every key of a mapping becomes a text.  A key that
holds a lone surrogate has no such form.
-/

namespace SchemaGraft

inductive PlainFault where
  | bytes (fault : Utf8.DecodeFault)
  -- the name of a member holds a lone surrogate
  | name (fault : Utf8.EncodeFault)
  | tooDeep
  -- the value holds itself
  | cyclic
  | longInteger
deriving DecidableEq, Repr

/-- The greatest number of values that may lie inside one another. -/
def maxPlainDepth : Nat := 255

/-- A text as the name of a member of a record's free mapping: three replacement characters stand for each
lone surrogate, one for each byte that its three-byte form would have. -/
def Text.asName (t : Text) : Text :=
  t.flatMap fun
    | .scalar c => [.scalar c]
    | .surrogate _ => List.replicate 3 (.scalar Utf8.replacement)

namespace Scalar

def textOfBytes (bs : Bytes) : Except PlainFault Text :=
  match Utf8.decode bs with
  | .ok cs => .ok (Text.ofChars cs)
  | .error f => .error (.bytes { f with bytes := f.bytes.take 1, cause := .unspecified })

def plain : Scalar → Except PlainFault Json
  | .null => .ok .null
  | .bool b => .ok (.bool b)
  | .int n =>
    if Nat.pow 10 Json.maxIntegerDigits ≤ n.natAbs then .error .longInteger else .ok (.int n)
  | .float x => .ok (if x.isFinite then .float x else .null)
  | .text t => .ok (.text t)
  | .bytes bs => (textOfBytes bs).map .text
  | .date d => .ok (.text d.iso)
  | .timestamp t => .ok (.text t.iso)

/-- A key as the name of a member.  Unlike the text of a value, a name must have an encoding. -/
def memberName : Scalar → Except PlainFault Text
  | .null => .ok "None"
  | .bool true => .ok "true"
  | .bool false => .ok "false"
  | .int n =>
    if Nat.pow 10 Json.maxIntegerDigits ≤ n.natAbs then .error .longInteger else .ok (Text.ofInt n)
  | .float x => .ok (if x.isFinite then Text.ofChars x.numeral else "None")
  | .text t =>
    match Utf8.encode t with
    | .ok _ => .ok t
    | .error f => .error (.name f)
  | .bytes bs => textOfBytes bs
  | .date d => .ok d.iso
  | .timestamp t => .ok t.iso

end Scalar

namespace Value

mutual

/-- The JSON form of a value; `depth` counts the levels that are left. -/
def plainWithin (depth : Nat) (v : Value) : Except PlainFault Json :=
  match depth with
  | 0 => .error .tooDeep
  | depth + 1 =>
    match v with
    | .scalar s => s.plain
    | .list items => return .list (← plainItems depth items)
    | .pair a b => return .list [← plainWithin depth a, ← plainWithin depth b]
    | .set members =>
      if depth = 0 ∧ members ≠ [] then .error .tooDeep
      else return .list (← members.mapM Scalar.plain)
    | .object ms => return .object (Json.ofPairs (← plainMembers depth ms))
    | .cycle _ => .error .cyclic

def plainItems (depth : Nat) : List Value → Except PlainFault (List Json)
  | [] => return []
  | v :: rest => return (← plainWithin depth v) :: (← plainItems depth rest)

def plainMembers (depth : Nat) : List (Scalar × Value) → Except PlainFault (List (Text × Json))
  | [] => return []
  | (k, v) :: rest => do
    let name ← k.memberName
    let value ← plainWithin depth v
    return (name, value) :: (← plainMembers depth rest)

end

def plain (v : Value) : Except PlainFault Json :=
  plainWithin maxPlainDepth v

end Value

end SchemaGraft
