import SchemaGraft.Generator.Registry
import SchemaGraft.Run.Stage
import SchemaGraft.Tool.Launch

/-!
# Generation

A generator renders the client for a schema file; a formatter then tidies it up as well as it can.

## Architecture

- `Generation.generate` renders the client.  The formatter runs before it ends, or is left to be run by
  `Generation.join`.
- `Generation.format` runs the formatter.  It never fails: a client that is not formatted is still valid.
-/

namespace SchemaGraft

structure Client where
  directory : Path
  -- the command of the formatter, if it has still to run
  pending : Option (List Text) := none
  -- has the formatter succeeded, if it has run?
  isFormatted : Option Bool := none

namespace Generation

/-! ## Formatting -/

/-- What to note about a formatter that could not be run to its end. -/
def breakdown (tool : Text) (f : Fault) : Notice :=
  match f with
  | .pipeline (.toolNotFound ..) => .formatterMissing f.message
  | _ => .formatterBroken tool

/-- Runs a formatter; says whether it has succeeded. -/
def format (host : Host) (argv : List Text) : Action Bool := do
  let tool := argv.headD []
  let status ← tryCatch (some <$> Tool.run host argv tool) fun f => do
    Action.note (breakdown tool f)
    return none
  match status with
  | none => return false
  | some status =>
    if status = 0 then
      return true
    else
      Action.note (.formatterFailed tool status)
      return false

/-- Runs the formatter of a client if it has not run yet; says whether it has succeeded. -/
def join (host : Host) (client : Client) : Action (Option Bool) := do
  match client.pending with
  | none => return client.isFormatted
  | some argv => return some (← format host argv)

/-! ## Generating -/

/-- Faults of a generator that are not foreseen become failures of the generator. -/
def wrapping (generator : Text) (body : Action Unit) : Action Unit :=
  tryCatch body fun f =>
    throw (if f.isForeseen then f else .pipeline (.generatorFailed generator (.broken f.message)))

/-- Renders the client for the schema file of a configuration, with the given generator or the one that
the configuration names. -/
def render (host : Host) (registry : Registry) (c : Config) (generator : Option Generator) :
    Action Unit := do
  let s ← Schema.load c.schemaPath
  let g ← match generator with
    | some g => pure g
    | none =>
      match registry.build c with
      | .ok g => pure g
      | .error f => throw f
  Action.note (.generating c.outDir.text)
  wrapping g.name (g.generate host s c.outDir)

/-- The command of the formatter, if there is one. -/
def formatCommand (c : Config) : Option (List Text) :=
  c.formatter?.map (Template.render [("out_dir", c.outDir.text)])

/-- The client after its formatter has run, or with the formatter left to run. -/
def formatted (host : Host) (client : Client) (wait : Bool) : Stage Client := do
  if wait then
    return { client with pending := none, isFormatted := ← Stage.act (join host client) }
  else
    return client

/-- Generates a client.  `wait` decides whether the formatter runs before the end; without it the
configuration does. -/
def generate (host : Host) (registry : Registry) (c : Config) (generator : Option Generator)
    (wait : Option Bool) : Stage Client := do
  Stage.advance .generating
  Stage.recording (Stage.act (render host registry c generator))
  let client : Client := { directory := c.outDir, pending := formatCommand c }
  if client.pending.isSome then
    Stage.advance .formatting
  let client ← formatted host client (wait.getD c.waitForFormatter)
  Stage.advance .done
  return client

end Generation

end SchemaGraft
