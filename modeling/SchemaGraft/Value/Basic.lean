import SchemaGraft.Calendar
import SchemaGraft.Json.Basic
import SchemaGraft.Text.Utf8

/-!
# Data values

The values that documents of both formats, JSON and YAML, give to the library.  They extend the JSON
values by bytes, dates, pairs, sets, and mappings with keys of any scalar kind.

## Architecture

- `Scalar` is a value without parts, `Value` any value.
- `Scalar.same` and `Value.same` are equality of data: numbers are compared by value across truth
  values, integers and floating-point numbers, and mappings without regard to order.
- `Value.ofJson` embeds the JSON values.
-/

namespace SchemaGraft

inductive Scalar where
  | null
  | bool (b : Bool)
  | int (n : Int)
  | float (x : Binary64)
  | text (t : Text)
  | bytes (bs : Bytes)
  | date (d : Date)
  | timestamp (t : Timestamp)
deriving DecidableEq, Repr

inductive Value where
  | scalar (s : Scalar)
  | list (items : List Value)
  -- two values in order, as ordered mappings list their entries
  | pair (first second : Value)
  -- a set of scalars, in the order of their first occurrence
  | set (members : List Scalar)
  -- a mapping, in the order of the first occurrence of its keys
  | object (members : List (Scalar × Value))
  -- a reference from inside a list or a mapping back to it
  | cycle (isObject : Bool)

instance : Inhabited Value := ⟨.scalar .null⟩

/-! ## Equality of data -/

namespace Scalar

/-- The integer that a truth value or an integer counts as. -/
def toInt? : Scalar → Option Int
  | .bool b => some (if b then 1 else 0)
  | .int n => some n
  | _ => none

def same : Scalar → Scalar → Bool
  | .null, .null => true
  | .text s, .text t => s == t
  | .bytes s, .bytes t => s == t
  | .date s, .date t => s == t
  | .timestamp s, .timestamp t => s.same t
  | .float x, .float y => x.same y
  | .float x, t => x.toInt?.isSome && x.toInt? == t.toInt?
  | s, .float y => y.toInt?.isSome && y.toInt? == s.toInt?
  | s, t => s.toInt?.isSome && s.toInt? == t.toInt?

/-- Is this one of the scalars in a list, as data? -/
def elem (s : Scalar) (ts : List Scalar) : Bool :=
  ts.any s.same

/-- Adds an entry to a mapping, or gives the entry of the same key a new value in its old place. -/
def put {β : Type} (key : Scalar) (value : β) : List (Scalar × β) → List (Scalar × β)
  | [] => [(key, value)]
  | (k, v) :: rest => if k.same key then (k, value) :: rest else (k, v) :: put key value rest

def lookup {β : Type} (key : Scalar) : List (Scalar × β) → Option β
  | [] => none
  | (k, v) :: rest => if k.same key then some v else lookup key rest

end Scalar

namespace Value

mutual

def same : Value → Value → Bool
  | .scalar s, .scalar t => s.same t
  | .list xs, .list ys => sameItems xs ys
  | .pair a b, .pair c d => same a c && same b d
  | .set xs, .set ys => xs.length == ys.length && xs.all (·.elem ys)
  | .object ms, .object ns => ms.length == ns.length && sameMembers ms ns
  | _, _ => false

def sameItems : List Value → List Value → Bool
  | [], [] => true
  | x :: xs, y :: ys => same x y && sameItems xs ys
  | _, _ => false

/-- Does the second mapping give every key of the first one the same value? -/
def sameMembers : List (Scalar × Value) → List (Scalar × Value) → Bool
  | [], _ => true
  | (k, v) :: rest, ns =>
    (match k.lookup ns with
      | some w => same v w
      | none => false) && sameMembers rest ns

end

/-! ## JSON values as data -/

mutual

def ofJson : Json → Value
  | .null => .scalar .null
  | .bool b => .scalar (.bool b)
  | .int n => .scalar (.int n)
  | .float x => .scalar (.float x)
  | .text t => .scalar (.text t)
  | .list items => .list (ofJsonItems items)
  | .object ms => .object (ofJsonMembers ms)

def ofJsonItems : List Json → List Value
  | [] => []
  | v :: rest => ofJson v :: ofJsonItems rest

def ofJsonMembers : List (Text × Json) → List (Scalar × Value)
  | [] => []
  | (n, v) :: rest => (.text n, ofJson v) :: ofJsonMembers rest

end

/-! ## Views -/

def ofText (t : Text) : Value :=
  .scalar (.text t)

/-- Does the value count as nothing: null, false, zero, or empty? -/
def isFalsy : Value → Bool
  | .scalar .null => true
  | .scalar (.bool b) => !b
  | .scalar (.int n) => n == 0
  | .scalar (.float x) => x.toInt? == some 0
  | .scalar (.text t) => t.isEmpty
  | .scalar (.bytes bs) => bs.isEmpty
  | .scalar (.date _) | .scalar (.timestamp _) => false
  | .list items => items.isEmpty
  | .pair .. => false
  | .set members => members.isEmpty
  | .object members => members.isEmpty
  | .cycle _ => false

end Value

end SchemaGraft
