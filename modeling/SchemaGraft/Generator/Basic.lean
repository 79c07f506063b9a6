import SchemaGraft.Schema.File

/-!
# Generators of clients

A generator renders a client for a schema into a directory.
-/

namespace SchemaGraft

structure Generator where
  name : Text
  generate : Host → Schema → Path → Action Unit

namespace Generator

/-- A generator from outside: it is called, and then raises the given fault, if any. -/
def foreign (name : Text) (raised : Option Fault) : Generator where
  name
  generate _ s directory := do
    match s.text with
    | .ok t => Action.emit (.generated name directory.text t)
    | .error f => throw f
    match raised with
    | some f => throw f
    | none => return

end Generator

end SchemaGraft
