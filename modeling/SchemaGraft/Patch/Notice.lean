import SchemaGraft.Table.Basic

/-!
# Notices

The records that the library logs.  A notice says what happened; its level, the logger it goes to and
its wording follow from that.
-/

namespace SchemaGraft

inductive Level where
  | info
  | warning
  | error
deriving DecidableEq, Repr

def Level.name : Level → String
  | .info => "INFO"
  | .warning => "WARNING"
  | .error => "ERROR"

/-- The weight of a level, by which thresholds are compared. -/
def Level.weight : Level → Nat
  | .info => 20
  | .warning => 30
  | .error => 40

inductive Notice where
  | missingInstruction (table name : Text)
  -- a table appends an argument of a type that the schema lacks
  | unknownType (table type : Text)
  -- an instruction has an argument of the appended name, but of another type
  | leftUnchanged (instruction argument : Text) (found expected : TypeRef)
  | patched (table : Text) (added present : Nat)
  -- a schema file was written, or held the same text already
  | saved (path : Text) (changed : Bool)
  | extracting (argv : List Text)
  | mutating (path : Text)
  | generating (directory : Text)
  | generatingWith (directory tool : Text)
  | formatterMissing (reason : Text)
  | formatterBroken (tool : Text)
  | formatterFailed (tool : Text) (status : Int)

namespace Notice

def level : Notice → Level
  | .missingInstruction .. | .unknownType .. | .leftUnchanged .. => .warning
  | .patched .. | .saved .. | .extracting .. | .mutating .. | .generating .. | .generatingWith .. =>
    .info
  | .formatterMissing .. | .formatterFailed .. => .warning
  | .formatterBroken .. => .error

def logger : Notice → String
  | .missingInstruction .. | .unknownType .. | .leftUnchanged .. | .patched .. => "idl_pilot.patcher"
  | .saved .. | .extracting .. | .mutating .. => "idl_pilot.extract"
  | .generating .. | .formatterMissing .. | .formatterBroken .. | .formatterFailed .. =>
    "idl_pilot.generate"
  | .generatingWith .. => "idl_pilot.generator.command"

/-- Has the notice a wording?  Only one that shows types may have none. -/
def isPrintable : Notice → Bool
  | .leftUnchanged _ _ found expected => found.isPrintable && expected.isPrintable
  | _ => true

def message : Notice → Text
  | .missingInstruction table name =>
    "Patch table " ++ table ++ " names '" ++ name ++ "' but the schema has no such instruction"
  | .unknownType table type =>
    "Patch table " ++ table ++ " appends type '" ++ type ++ "' which the schema does not define"
  | .leftUnchanged instruction argument found expected =>
    "Instruction " ++ instruction ++ " already has argument '" ++ argument ++ "' of type " ++
      found.display ++ ", expected " ++ expected.display ++ "; left unchanged"
  | .patched table added present =>
    "Patched " ++ Text.ofNat added ++ " instruction(s) with table " ++ table ++ " (" ++
      Text.ofNat present ++ " already present)"
  | .saved path true => "Wrote " ++ path
  | .saved path false => path ++ " already up to date"
  | .extracting argv => "Extracting IDL with " ++ Text.join " " argv
  | .mutating path => "Mutating IDL at " ++ path
  | .generating directory => "Generating client to " ++ directory
  | .generatingWith directory tool => "Generating client into " ++ directory ++ " with " ++ tool
  | .formatterMissing reason => "Skipping formatting, " ++ reason
  | .formatterBroken tool => "Formatter " ++ tool ++ " failed; client left unformatted"
  | .formatterFailed tool status =>
    "Formatter " ++ tool ++ " exited with status " ++ Text.ofInt status ++
      "; client left unformatted"

end Notice

end SchemaGraft
