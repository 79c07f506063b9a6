import SchemaGraft.Generator.Basic
import SchemaGraft.Tool.Template

/-!
# Generating by a command

The schema is written to a temporary file, whose path and the directory of the client go to a command.
-/

namespace SchemaGraft

namespace Generator

def commandName : Text :=
  "command"

/-- The name of the temporary schema file: that of the program, or a fixed one when it has none. -/
def schemaFileName (s : Schema) : Text :=
  s.programName?.getD "program" ++ ".json"

/-- The fault of a generating command that did not start; only a missing program is foreseen. -/
def startFault (generator executable : Text) : Fault → Fault
  | .access (.system .notFound _) => .pipeline (.generatorFailed generator (.noExecutable executable))
  | f => f

/-- Runs a command on a schema, which it finds in a file of a temporary directory, and gives its exit
status. -/
def runCommandIn (host : Host) (tool : Text) (arguments : List Text) (s : Schema)
    (directory temporary : Path) : Action Int := do
  let text ← match s.text with
    | .ok t => pure t
    | .error f => throw f
  let file := temporary ++ Path.ofText (schemaFileName s)
  Action.writeText file text
  let values : List (Text × Text) := [("schema", file.text), ("out_dir", directory.text)]
  let executable := Template.fill values tool
  Action.note (.generatingWith directory.text executable)
  let e ← tryCatch (Action.launch host (executable :: Template.render values arguments)) fun f =>
    throw (startFault tool executable f)
  return e.status

/-- Runs a command on a schema and gives its exit status. -/
def runCommand (host : Host) (tool : Text) (arguments : List Text) (s : Schema) (directory : Path) :
    Action Int :=
  Action.inFreshDirectory host (runCommandIn host tool arguments s directory)

/-- The generator that runs a command, which must have at least one part. -/
def command (argv : List Text) : Except Fault Generator :=
  match argv with
  | [] => .error .emptyCommand
  | tool :: arguments =>
    .ok {
      name := commandName
      generate := fun host s directory => do
        Action.makeDirectories directory
        let status ← runCommand host tool arguments s directory
        if status ≠ 0 then
          throw (.pipeline (.generatorFailed tool (.status status))) }

end Generator

end SchemaGraft
