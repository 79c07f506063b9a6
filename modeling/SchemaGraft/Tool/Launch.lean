import SchemaGraft.Tool.Stream

/-!
# Running tools
-/

namespace SchemaGraft

namespace Tool

/-- The fault of a tool that did not start: a program that is missing or may not be started is foreseen. -/
def startFault (tool : Text) (hint : Option Text) : Fault → Fault
  | .access (.system .notFound _) => .pipeline (.toolNotFound tool hint .notFound)
  | .access (.system .denied _) => .pipeline (.toolNotFound tool hint .denied)
  | f => f

/-- Starts a tool, passes on what it writes, and gives its exit status. -/
def run (host : Host) (argv : List Text) (tool : Text) (hint : Option Text := none) : Action Int := do
  let e ← tryCatch (Action.launch host argv) fun f => throw (startFault tool hint f)
  ToolStream.output.forward e.output
  ToolStream.error.forward e.error
  return e.status

end Tool

end SchemaGraft
