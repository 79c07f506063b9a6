import SchemaGraft.Patch.Notice

/-!
# Events

What the library does that shows outside its files: the notices it logs, the tools it starts with what
they write, the calls of generators, and the output of the command line.
-/

namespace SchemaGraft

inductive ToolStream where
  | output
  | error
deriving DecidableEq, Repr

/-- A call of the library that renders clients. -/
inductive LibraryCall where
  -- reads a schema, given by its canonical text
  | fromJson (schema : Text)
  | programId (id : Value) (directory : Text)
  | errors (directory : Text)
  | instructions (directory : Text)
  | types (directory : Text)
  | accounts (directory : Text)

/-- A table for the terminal, before it is laid out. -/
structure TextTable where
  title : Text
  columns : List Text
  rows : List (List Text)
deriving DecidableEq, Repr

inductive Event where
  | noticed (notice : Notice)
  -- a tool was asked for, while the given temporary files were there
  | started (argv : List Text) (temporary : List (Text × Bytes))
  | received (stream : ToolStream) (piece : Text)
  -- a generator from outside was called with a directory and the canonical text of a schema
  | generated (generator directory schema : Text)
  | called (call : LibraryCall)
  | printed (line : Text)
  | tabulated (table : TextTable)

end SchemaGraft
