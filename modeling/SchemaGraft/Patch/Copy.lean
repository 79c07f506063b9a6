import SchemaGraft.Schema.Basic

/-!
# Copies

A patch works on a copy of the schema, and appends a copy of the argument of a rule.  A value that is nested
too deeply cannot be copied.

## Architecture

- `Value.copyDepth` is the number of calls that lie inside one another while a value is copied, and
  `Schema.copyDepth` and `Argument.copyDepth` are those of the records.
- `maxCopyDepth` is the greatest number of calls there may be.
-/

namespace SchemaGraft

/-- The number of calls that may lie inside one another while a record is copied.  How many there may be
depends on the calls that are open already; the number fits a patch that is asked for directly. -/
def maxCopyDepth : Nat := 987

/-- The depth of a list or a mapping whose parts have the given depths. -/
def copyDepthOver (parts : List Nat) : Nat :=
  2 + parts.foldr max 1

/-! ## Values -/

/-- The depth of a scalar.  Dates are taken apart and built anew. -/
def Scalar.copyDepth : Scalar → Nat
  | .date _ => 5
  | .timestamp t => if t.offset.isSome then 11 else 5
  | _ => 2

namespace Value

mutual

/-- The depth of a value.  A value that occurs twice is counted in full each time. -/
def copyDepth : Value → Nat
  | .scalar s => s.copyDepth
  | .list items => copyDepthOver (itemDepths items)
  | .pair a b => 3 + max (copyDepth a) (copyDepth b)
  | .set members => 3 + copyDepthOver (members.map Scalar.copyDepth)
  | .object ms => copyDepthOver (entryDepths ms)
  -- what is being copied already is not copied again
  | .cycle _ => 1

def itemDepths : List Value → List Nat
  | [] => []
  | v :: rest => copyDepth v :: itemDepths rest

def entryDepths : List (Scalar × Value) → List Nat
  | [] => []
  | (k, v) :: rest => k.copyDepth :: copyDepth v :: entryDepths rest

end

end Value

/-! ## Records -/

/-- The depth of a record with the given fields and other members, when it is the first to be copied. -/
def recordCopyDepth (fields : List Nat) (extra : List (Text × Value)) : Nat :=
  max (copyDepthOver fields) (Value.object (TypeRef.entries extra)).copyDepth

/-- The depth of a list of records. -/
def recordsCopyDepth {α : Type} (depth : α → Nat) (records : List α) : Nat :=
  copyDepthOver (records.map fun r => 2 + depth r)

def Argument.copyDepth (a : Argument) : Nat :=
  recordCopyDepth [2, a.type.toValue.copyDepth] a.extra

def Instruction.copyDepth (ix : Instruction) : Nat :=
  recordCopyDepth [2, recordsCopyDepth Argument.copyDepth ix.arguments] ix.extra

def TypeDef.copyDepth (t : TypeDef) : Nat :=
  recordCopyDepth [2] t.extra

def ErrorDef.copyDepth (e : ErrorDef) : Nat :=
  recordCopyDepth [2] e.extra

def Schema.copyDepth (s : Schema) : Nat :=
  recordCopyDepth
    [2, recordsCopyDepth Instruction.copyDepth s.instructions,
      recordsCopyDepth TypeDef.copyDepth s.types,
      copyDepthOver ((s.accounts.getD []).map fun ms => (Value.object (TypeRef.entries ms)).copyDepth),
      recordsCopyDepth ErrorDef.copyDepth (s.errors.getD [])]
    s.extra

end SchemaGraft
