import SchemaGraft.Config.Basic
import SchemaGraft.Generator.Command
import SchemaGraft.Generator.Library

/-!
# The registry of generators

Generators are known by name, and built from the configuration when they are needed.
-/

namespace SchemaGraft

/-- How to build the generators that have a name. -/
abbrev Registry := List (Text × (Config → Except Fault Generator))

namespace Registry

def builtin : Registry :=
  [(Generator.commandName, fun c => Generator.command c.generatorCommand),
    (Generator.libraryName, fun _ => .ok (Generator.library none))]

/-- Adds a generator, in the place of another one of its name. -/
def register (r : Registry) (name : Text) (build : Config → Except Fault Generator) : Registry :=
  Json.put name build r

def unregister (r : Registry) (name : Text) : Registry :=
  r.filter fun m => m.1 ≠ name

def names (r : Registry) : List Text :=
  (r.map (·.1)).mergeSort Text.le

/-- Builds the generator that a configuration names. -/
def build (r : Registry) (c : Config) : Except Fault Generator :=
  match Json.lookup c.generator r with
  | some make => make c
  | none => .error (.pipeline (.generatorFailed c.generator (.unknown r.names)))

end Registry

end SchemaGraft
