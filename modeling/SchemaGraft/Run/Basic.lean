import SchemaGraft.Fault

/-!
# Runs

A run remembers the states it has been in and the fault that ended it.
-/

namespace SchemaGraft

structure Run where
  -- the states before the present one, in order
  past : List RunState := []
  state : RunState := .idle
  -- the fault that was recorded last
  error : Option Fault := none

namespace Run

def start : Run := {}

def history (r : Run) : List RunState :=
  r.past ++ [r.state]

/-- Takes a step, if the present state allows it.  What is logged of every step, on a level below that of all
notices, is left out. -/
def advance (r : Run) (target : RunState) : Except Fault Run :=
  if r.state.next.contains target then
    .ok { r with past := r.past ++ [r.state], state := target }
  else
    .error (.illegalStep r.state target)

/-- Records a fault and lets the run fail, if its present state allows that. -/
def fail (r : Run) (f : Fault) : Run × Except Fault Unit :=
  let r := { r with error := some f }
  match r.advance .failed with
  | .ok r => (r, .ok ())
  | .error e => (r, .error e)

end Run

end SchemaGraft
