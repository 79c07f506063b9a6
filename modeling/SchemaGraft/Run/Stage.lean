import SchemaGraft.Run.Basic
import SchemaGraft.World.Action

/-!
# Stages

Operations on a run and the world at once.
-/

namespace SchemaGraft

/-- A run and the world in which it takes place. -/
structure Pipeline where
  world : World
  run : Run := .start

/-- An operation on a run and its world that may fail. -/
abbrev Stage (α : Type) := ExceptT Fault (StateM Pipeline) α

namespace Stage

/-- An action as a stage; the run stays as it is. -/
def act {α : Type} (a : Action α) : Stage α := do
  let p ← get
  let (outcome, world) := a.run.run p.world
  set { p with world }
  match outcome with
  | .ok a => return a
  | .error f => throw f

def advance (target : RunState) : Stage Unit := do
  let p ← get
  match p.run.advance target with
  | .ok run => set { p with run }
  | .error f => throw f

def fail (f : Fault) : Stage Unit := do
  let p ← get
  let (run, outcome) := p.run.fail f
  set { p with run }
  match outcome with
  | .ok () => return
  | .error e => throw e

/-- A stage after whose foreseen faults the run has failed.  Other faults leave the run where it is. -/
def recording {α : Type} (body : Stage α) : Stage α :=
  tryCatch body fun f => do
    if f.isForeseen then fail f
    throw f

end Stage

end SchemaGraft
