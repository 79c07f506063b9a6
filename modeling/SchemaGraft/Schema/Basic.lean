import SchemaGraft.Value.Display

/-!
# Interface schemas

The schema of an on-chain program: its instructions with their arguments, its types, accounts and
errors.  Every record keeps the members it does not know, and remembers which of its optional members
were given, so that writing a schema back adds and drops nothing.

## Architecture

- `TypeRef` names a type or describes one; `TypeRef.definedName` is the type of the schema it refers to.
- `Argument`, `Instruction`, `TypeDef`, `ErrorDef` and `Schema` are the records; an optional member is
  `none` when it was not given.
-/

namespace SchemaGraft

/-! ## Types of arguments -/

/-- The type of an argument: a primitive tag, or a description such as a reference to a defined type. -/
inductive TypeRef where
  -- a tag such as `u64`
  | named (name : Text)
  -- a description, by its members
  | composite (members : List (Text × Value))

namespace TypeRef

/-- Members with texts as names, as entries of a mapping. -/
def entries (ms : List (Text × Value)) : List (Scalar × Value) :=
  ms.map fun m => (.text m.1, m.2)

def toValue : TypeRef → Value
  | .named n => Value.ofText n
  | .composite ms => .object (entries ms)

def same (s t : TypeRef) : Bool :=
  s.toValue.same t.toValue

/-- The form in which messages show a type: a tag as it is, a description as a mapping. -/
def display : TypeRef → Text
  | .named n => n
  | t => t.toValue.display

/-- Can messages show the type? -/
def isPrintable : TypeRef → Bool
  | .named _ => true
  | t => t.toValue.isPrintable

/-- A reference to the type of a schema with the given name. -/
def defined (name : Text) : TypeRef :=
  .composite [("defined", Value.ofText name)]

/-- The name under the key `defined`: a text, or a mapping that holds a text under `name`. -/
def definedName : TypeRef → Option Text
  | .named _ => none
  | .composite ms =>
    match Json.lookup "defined" ms with
    | some (.scalar (.text n)) => some n
    | some (.object target) =>
      match Scalar.lookup (.text "name") target with
      | some (.scalar (.text n)) => some n
      | _ => none
    | _ => none

end TypeRef

/-! ## Records -/

structure Argument where
  name : Text
  type : TypeRef
  -- all other members
  extra : List (Text × Value) := []

def Argument.same (a b : Argument) : Bool :=
  a.name == b.name && a.type.same b.type &&
    (Value.object (TypeRef.entries a.extra)).same (.object (TypeRef.entries b.extra))

structure Instruction where
  name : Text
  -- the arguments, if they were given
  args : Option (List Argument) := none
  extra : List (Text × Value) := []

/-- The arguments of an instruction; there are none when none were given. -/
def Instruction.arguments (ix : Instruction) : List Argument :=
  ix.args.getD []

structure TypeDef where
  name : Text
  extra : List (Text × Value) := []

structure ErrorDef where
  -- the number of the error, if it was given; it may be given as null
  code : Option (Option Int) := none
  name : Text
  extra : List (Text × Value) := []

structure Schema where
  -- the version, if it was given; it may be given as null
  version : Option (Option Text) := none
  -- the name of the program, if it was given; it may be given as null
  name : Option (Option Text) := none
  instructions : List Instruction
  types : List TypeDef
  accounts : Option (List (List (Text × Value))) := none
  errors : Option (List ErrorDef) := none
  extra : List (Text × Value) := []

namespace Schema

def instructionNames (s : Schema) : List Text :=
  s.instructions.map (·.name)

def typeNames (s : Schema) : List Text :=
  s.types.map (·.name)

/-- The name of the program, unless it is missing, null or empty. -/
def programName? (s : Schema) : Option Text :=
  match s.name with
  | some (some n) => if n.isEmpty then none else some n
  | _ => none

end Schema

end SchemaGraft
