import SchemaGraft.Schema.Validation
import SchemaGraft.Table.Basic

/-!
# Checking patch tables

The check that turns a value into a patch table.  Members that a table or a rule does not declare are
ignored.  A table that is well formed may still have a name that several rules match.
-/

namespace SchemaGraft

inductive TableFault where
  | invalid (issues : List Issue)
  | ambiguous (ambiguity : Ambiguity)
deriving DecidableEq, Repr

def PatchRule.check (v : Value) : Checked PatchRule := do
  let ms ← Check.record "PatchRule" v
  (Checked.both (Check.required ms "matches" (Check.sequence .tupleType Check.text)) <|
    Checked.both (Check.required ms "append" Argument.check) <|
    Check.possible ms "aliases" (Check.sequence .tupleType Check.text)).map
      fun (names, append, aliases) => { names, append, aliases := aliases.getD [] }

/-- A table, whether or not several rules match one name. -/
def PatchTable.check (v : Value) : Checked PatchTable := do
  let ms ← Check.record "PatchTable" v
  (Checked.both (Check.required ms "version" Check.text) <|
    Checked.both (Check.possible ms "program" (Check.optional Check.text)) <|
    Check.possible ms "rules" (Check.sequence .tupleType PatchRule.check)).map
      fun (version, program, rules) => { version, program := program.getD none, rules := rules.getD [] }

/-- A table in which no two rules match one name. -/
def PatchTable.ofValue (v : Value) : Except TableFault PatchTable :=
  match PatchTable.check v with
  | .error issues => .error (.invalid issues)
  | .ok t =>
    match t.conflict? with
    | some a => .error (.ambiguous a)
    | none => .ok t

end SchemaGraft
