import SchemaGraft.Table.Basic

/-!
# Coverage

How far a schema and a patch table fit together: which instructions a patch would change, which it
would leave alone and why, and what the table names that the schema lacks.
-/

namespace SchemaGraft

/-- How an instruction stands to the argument of a rule that matches it. -/
inductive Standing where
  -- the instruction has no argument of that name
  | lacking
  -- it has one of the same type
  | present
  -- it has one of another type, the given one
  | conflicting (found : Argument)

/-- How an instruction stands to an argument; of several arguments of that name the first one counts. -/
def Instruction.standing (ix : Instruction) (wanted : Argument) : Standing :=
  match ix.arguments.find? (·.name == wanted.name) with
  | none => .lacking
  | some found => if found.type.same wanted.type then .present else .conflicting found

/-- What a patch with a table would do to a schema. -/
structure Report where
  tableVersion : Text
  -- the instructions that lack their argument
  patched : List Text := []
  -- the instructions that have it
  alreadyPresent : List Text := []
  -- the instructions that have another argument of its name
  conflicting : List Text := []
  -- the expected names that no instruction has
  missing : List Text := []
  -- the types that appended arguments refer to and the schema lacks
  unknownTypes : List Text := []
deriving DecidableEq, Repr

namespace Report

/-- Adds an instruction with the given standing to the front of its list. -/
def add (r : Report) (name : Text) : Standing → Report
  | .lacking => { r with patched := name :: r.patched }
  | .present => { r with alreadyPresent := name :: r.alreadyPresent }
  | .conflicting _ => { r with conflicting := name :: r.conflicting }

/-- Sorts instructions by their standing, in front of the report `r`. -/
def ofInstructions (t : PatchTable) (r : Report) : List Instruction → Except Ambiguity Report
  | [] => .ok r
  | ix :: rest => do
    let rule? ← t.ruleFor ix.name
    let r ← ofInstructions t r rest
    match rule? with
    | none => return r
    | some rule => return r.add ix.name (ix.standing rule.append)

end Report

namespace PatchTable

/-- The expected names that no instruction of a schema has. -/
def missingFrom (t : PatchTable) (s : Schema) : List Text :=
  t.names.filter fun n => !s.instructionNames.contains n

/-- The types that the rules refer to and a schema lacks, each once. -/
def unknownTypes (t : PatchTable) (s : Schema) : List Text :=
  t.rules.foldl (fun found rule =>
    match rule.append.type.definedName with
    | some n =>
      if n.isEmpty || s.typeNames.contains n || found.contains n then found else found ++ [n]
    | none => found) []

/-- What a patch with a table would do to a schema. -/
def coverage (t : PatchTable) (s : Schema) : Except Ambiguity Report :=
  Report.ofInstructions t
    { tableVersion := t.version, missing := t.missingFrom s, unknownTypes := t.unknownTypes s }
    s.instructions

end PatchTable

end SchemaGraft
