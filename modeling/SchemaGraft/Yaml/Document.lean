import SchemaGraft.Yaml.Node
import SchemaGraft.Yaml.Scalar
import SchemaGraft.Yaml.Token.Lexer

/-!
# YAML documents

The data value that a document denotes.

## Architecture

- `Reading` is the outcome of reading a node.  Collections are read level by level from the root on, so of
  several faults the one on the outermost level counts, and of those on one level the first.
- `Node.value` reads a node; a mapping first takes over the entries of the mappings under its merge keys.
- `Yaml.load` reads a text.
-/

namespace SchemaGraft

namespace Yaml

/-! ## Levels -/

/-- A fault, and the number of collections that lie between it and the place that is being read. -/
structure LevelFault where
  -- the number of collections in between
  level : Nat
  fault : Fault

/-- What reading gives: something, or the fault that counts. -/
abbrev Reading (α : Type) := Except LevelFault α

namespace Reading

def ofExcept {α : Type} : Except Fault α → Reading α
  | .ok a => .ok a
  | .error f => .error ⟨0, f⟩

/-- The fault of a malformed document at the place that is being read. -/
def malformed {α : Type} : Reading α :=
  .error ⟨0, .malformed⟩

/-- What reading gives for the content of a collection, seen from outside. -/
def deeper {α : Type} : Reading α → Reading α
  | .ok a => .ok a
  | .error e => .error { e with level := e.level + 1 }

/-- Reads two parts; the fault on the outer level counts, and the first one of two on one level. -/
def both {α β : Type} : Reading α → Reading β → Reading (α × β)
  | .ok a, .ok b => .ok (a, b)
  | .ok _, .error f => .error f
  | .error e, .ok _ => .error e
  | .error e, .error f => .error (if f.level < e.level then f else e)

end Reading

/-! ## Nodes -/

namespace Node

def tag : Node → Tag
  | .scalar t _ | .sequence t _ | .mapping t _ => t
  | .cycle true => .map
  | .cycle false => .seq

mutual

/-- The text of a scalar.  A mapping under a tag for scalars has the text of its default value. -/
def content? : Node → Option Text
  | .scalar _ t => some t
  | .mapping _ es => defaultContent? es
  | _ => none

/-- The text of the default value among the entries of a mapping. -/
def defaultContent? : List (Node × Node) → Option Text
  | [] => none
  | (k, v) :: rest => if k.tag = .default then content? v else defaultContent? rest

end

/-- The scalar that a mapping with a default value denotes.  A time is looked for in the mapping itself, which
is no text. -/
def scalarOfDefault (tag : Tag) (t : Text) : Except Fault Scalar :=
  if tag = .timestamp then .error .mappingAsTime else scalarOf tag t

/-- The scalar that a node denotes, if its tag is one for scalars. -/
def scalar? (n : Node) (tag : Tag) : Except Fault Scalar :=
  match n with
  | .scalar _ t => scalarOf tag t
  | .mapping _ es =>
    match defaultContent? es with
    | some t => scalarOfDefault tag t
    | none => .error .malformed
  | _ => .error .malformed

/-- The key that a node denotes: a scalar, where the key for the default value counts as a text. -/
def key (n : Node) : Reading Scalar :=
  Reading.ofExcept (n.scalar? (if n.tag = .default then .text else n.tag))

/-! ### Merge keys -/

mutual

/-- Does every merge key among some entries have a mapping or a sequence of mappings as its value, and the
same for the merge keys of these? -/
def mergeable : List (Node × Node) → Bool
  | [] => true
  | (k, v) :: rest => (k.tag ≠ .merge || mergeSource v) && mergeable rest

def mergeSource : Node → Bool
  | .mapping _ es => mergeable es
  | .sequence _ items => mergeSources items
  | .cycle isMapping => isMapping
  | .scalar .. => false

/-- Are the items mappings from which entries can be taken over? -/
def mergeSources : List Node → Bool
  | [] => true
  | .mapping _ es :: rest => mergeable es && mergeSources rest
  | .cycle isMapping :: rest => isMapping && mergeSources rest
  | _ :: _ => false

end

/-! ### Values -/

/-- The mapping with given entries, of which the last one counts for each key. -/
def mappingOf {β : Type} (entries : List (Scalar × β)) : List (Scalar × β) :=
  entries.foldl (fun ms e => Scalar.put e.1 e.2 ms) []

/-- The entries that a mapping takes over, and then its own. -/
def joined (taken own : Reading (List (Scalar × Value))) : Reading (List (Scalar × Value)) :=
  (Reading.both taken own).map fun p => p.1 ++ p.2

/-- The mapping with given entries, if its merge keys are in order. -/
def checked (isMergeable : Bool) (entries : Reading (List (Scalar × Value))) :
    Reading (List (Scalar × Value)) :=
  Reading.deeper (if isMergeable then entries.map mappingOf else Reading.malformed)

mutual

def value : Node → Reading Value
  | .cycle isMapping => .ok (.cycle isMapping)
  | .scalar tag t =>
    if tag.isCollection then Reading.deeper Reading.malformed
    else (Reading.ofExcept (scalarOf tag t)).map .scalar
  | .sequence tag items =>
    match tag with
    | .seq => Reading.deeper ((values items).map .list)
    | .omap | .pairs => Reading.deeper ((pairs items).map .list)
    | .map | .set => Reading.deeper Reading.malformed
    | _ => Reading.malformed
  | .mapping tag es =>
    match tag with
    | .map => (checked (mergeable es) (joined (takenOver es) (ownEntries es))).map .object
    | .set =>
      (checked (mergeable es) (joined (takenOver es) (ownEntries es))).map fun ms => .set (ms.map (·.1))
    | .seq | .omap | .pairs => Reading.deeper Reading.malformed
    | tag =>
      match defaultContent? es with
      | some t => (Reading.ofExcept (scalarOfDefault tag t)).map .scalar
      | none => Reading.malformed

def values : List Node → Reading (List Value)
  | [] => .ok []
  | n :: rest => (Reading.both (value n) (values rest)).map fun p => p.1 :: p.2

/-- The pairs that the items of a sequence denote: each is a mapping with one entry. -/
def pairs : List Node → Reading (List Value)
  | [] => .ok []
  | .mapping _ [(k, v)] :: rest =>
    (Reading.both (Reading.both (value k) (value v)) (pairs rest)).map
      fun p => .pair p.1.1 p.1.2 :: p.2
  | _ :: _ => Reading.malformed

def ownEntries : List (Node × Node) → Reading (List (Scalar × Value))
  | [] => .ok []
  | (k, v) :: rest =>
    if k.tag = .merge then
      ownEntries rest
    else
      (Reading.both (Reading.both k.key (value v)) (ownEntries rest)).map fun p => p.1 :: p.2

def takenOver : List (Node × Node) → Reading (List (Scalar × Value))
  | [] => .ok []
  | (k, v) :: rest =>
    if k.tag = .merge then
      joined (sourceEntries v) (takenOver rest)
    else
      takenOver rest

/-- The entries of a mapping, or those of the mappings in a sequence, where earlier ones outweigh later
ones.  From a mapping around it a mapping takes over nothing here; the reference would make it hold
itself. -/
def sourceEntries : Node → Reading (List (Scalar × Value))
  | .mapping _ es => joined (takenOver es) (ownEntries es)
  | .sequence _ items => sourceItems items
  | _ => .ok []

def sourceItems : List Node → Reading (List (Scalar × Value))
  | [] => .ok []
  | .mapping _ es :: rest =>
    joined (sourceItems rest) (joined (takenOver es) (ownEntries es))
  | _ :: rest => sourceItems rest

end

end Node

/-! ## Documents -/

/-- The value that a text denotes; a text without a document denotes null. -/
def load (cs : List Char) : Except Fault Value := do
  match ← Node.ofTokens? (Token.scan cs) with
  | none => return .scalar .null
  | some root =>
    match root.value with
    | .ok v => return v
    | .error e => throw e.fault

end Yaml

end SchemaGraft
