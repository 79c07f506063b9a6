import SchemaGraft.Number.Binary64
import SchemaGraft.Text.Codepoint

/-!
# JSON values

The values that a JSON text denotes.  Integers are exact and apart from floating-point numbers, which
may be infinite or not a number; strings may hold lone surrogates; the members of an object keep the
order in which their names first occurred.
-/

namespace SchemaGraft

inductive Json where
  | null
  | bool (b : Bool)
  -- a number written without fraction and exponent
  | int (n : Int)
  -- any other number
  | float (x : Binary64)
  | text (t : Text)
  | list (items : List Json)
  | object (members : List (Text × Json))

instance : Inhabited Json := ⟨.null⟩

namespace Json

/-- Adds a member, or gives the member of that name a new value in its old place. -/
def put {α β : Type} [DecidableEq α] (name : α) (value : β) : List (α × β) → List (α × β)
  | [] => [(name, value)]
  | (n, v) :: rest => if n = name then (n, value) :: rest else (n, v) :: put name value rest

/-- Members in the order in which they were given: the last value of a name counts, in the place where
the name occurred first. -/
def ofPairs {α β : Type} [DecidableEq α] (pairs : List (α × β)) : List (α × β) :=
  pairs.foldl (fun ms m => put m.1 m.2 ms) []

def lookup {β : Type} (name : Text) : List (Text × β) → Option β
  | [] => none
  | (n, v) :: rest => if n = name then some v else lookup name rest

/-- The members of an object; other values have none. -/
def members : Json → List (Text × Json)
  | .object ms => ms
  | _ => []

/-- The value of a member, for objects that have it. -/
def get? (v : Json) (name : Text) : Option Json :=
  lookup name v.members

mutual

/-- The value with the members of every object in the order of their names. -/
def sorted : Json → Json
  | .list items => .list (sortedItems items)
  | .object ms => .object ((sortedMembers ms).mergeSort fun m n => m.1.le n.1)
  | v => v

def sortedItems : List Json → List Json
  | [] => []
  | v :: rest => sorted v :: sortedItems rest

def sortedMembers : List (Text × Json) → List (Text × Json)
  | [] => []
  | (n, v) :: rest => (n, sorted v) :: sortedMembers rest

end

end Json

end SchemaGraft
