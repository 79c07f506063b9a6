import SchemaGraft.Schema.Basic
import SchemaGraft.Validation.Leaf

/-!
# Checking schemas

The check that turns a value into a schema.  Each record is checked member by member, in the order in
which the record declares them; members that it does not declare are kept.
-/

namespace SchemaGraft

/-- A type of an argument: a text or a mapping.  What is neither has an issue for each of the two. -/
def TypeRef.check (v : Value) : Checked TypeRef :=
  match Check.text v with
  | .ok t => .ok (.named t)
  | .error _ =>
    match Check.dictionary v with
    | .ok ms => .ok (.composite ms)
    | .error _ =>
      (Checked.both (Checked.under (.field "str") (Check.text v))
        (Checked.under (.field "dict[str,any]") (Check.dictionary v))).map fun p => .named p.1

def Argument.check (v : Value) : Checked Argument := do
  let ms ← Check.record "Argument" v
  Check.readable ms <|
    (Checked.both (Check.required ms "name" Check.text) <|
      Checked.both (Check.required ms "type" TypeRef.check) <|
      Check.extras ["name", "type"] ms).map
    fun (name, type, extra) => { name, type, extra }

def Instruction.check (v : Value) : Checked Instruction := do
  let ms ← Check.record "Instruction" v
  Check.readable ms <|
    (Checked.both (Check.required ms "name" Check.text) <|
      Checked.both (Check.possible ms "args" (Check.list Argument.check)) <|
      Check.extras ["name", "args"] ms).map
    fun (name, args, extra) => { name, args, extra }

def TypeDef.check (v : Value) : Checked TypeDef := do
  let ms ← Check.record "TypeDef" v
  Check.readable ms <|
    (Checked.both (Check.required ms "name" Check.text) <|
      Check.extras ["name"] ms).map
    fun (name, extra) => { name, extra }

def ErrorDef.check (v : Value) : Checked ErrorDef := do
  let ms ← Check.record "ErrorDef" v
  Check.readable ms <|
    (Checked.both (Check.possible ms "code" (Check.optional Check.integer)) <|
      Checked.both (Check.required ms "name" Check.text) <|
      Check.extras ["code", "name"] ms).map
    fun (code, name, extra) => { code, name, extra }

/-- The first name that occurs a second time in a list, after the names already `seen`. -/
def firstRepeated? (seen : List Text) : List Text → Option Text
  | [] => none
  | n :: rest => if n ∈ seen then some n else firstRepeated? (n :: seen) rest

/-- Instructions whose names differ from one another. -/
def Schema.checkInstructions (v : Value) : Checked (List Instruction) := do
  let ixs ← Check.list Instruction.check v
  match firstRepeated? [] (ixs.map (·.name)) with
  | some n => Checked.fail (.duplicateInstruction n)
  | none => return ixs

def Schema.check (v : Value) : Checked Schema := do
  let ms ← Check.record "Schema" v
  Check.readable ms <|
    (Checked.both (Check.possible ms "version" (Check.optional Check.text)) <|
      Checked.both (Check.possible ms "name" (Check.optional Check.text)) <|
      Checked.both (Check.required ms "instructions" Schema.checkInstructions) <|
      Checked.both (Check.required ms "types" (Check.list TypeDef.check)) <|
      Checked.both (Check.possible ms "accounts" (Check.list Check.dictionary)) <|
      Checked.both (Check.possible ms "errors" (Check.list ErrorDef.check)) <|
      Check.extras ["version", "name", "instructions", "types", "accounts", "errors"] ms).map
    fun (version, name, instructions, types, accounts, errors, extra) =>
      { version, name, instructions, types, accounts, errors, extra }

end SchemaGraft
