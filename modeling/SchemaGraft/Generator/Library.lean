import SchemaGraft.Generator.Basic

/-!
# Generating by a library

A library renders the client.  It needs the address of the program, which the schema gives unless the
caller does.
-/

namespace SchemaGraft

/-- The name of the kind of a value, for messages. -/
def Value.kind : Value → String
  | .scalar .null => "NoneType"
  | .scalar (.bool _) => "bool"
  | .scalar (.int _) => "int"
  | .scalar (.float _) => "float"
  | .scalar (.text _) => "str"
  | .scalar (.bytes _) => "bytes"
  | .scalar (.date _) => "datetime.date"
  | .scalar (.timestamp _) => "datetime.datetime"
  | .list _ | .cycle false => "list"
  | .pair .. => "tuple"
  | .set _ => "set"
  | .object _ | .cycle true => "dict"

namespace Generator

def libraryName : Text :=
  "anchorpy"

def libraryFault (f : GeneratorFault) : Fault :=
  .pipeline (.generatorFailed libraryName f)

/-- The metadata of a schema; they count as empty when they are absent or nothing. -/
def metadata (s : Schema) : Except Fault (List (Scalar × Value)) :=
  match Json.lookup "metadata" s.extra with
  | none => .ok []
  | some (.object ms) => .ok ms
  | some v => if v.isFalsy then .ok [] else .error (.metadata v.kind)

/-- The address of a program: the given one, or the one in the metadata of its schema. -/
def programId (given : Option Text) (s : Schema) : Except Fault Value :=
  match given with
  | some (c :: rest) => .ok (Value.ofText (c :: rest))
  | _ => do
    match Scalar.lookup (.text "address") (← metadata s) with
    | some v => if v.isFalsy then throw (libraryFault .noProgramId) else return v
    | none => throw (libraryFault .noProgramId)

/-- Calls the library; a fault of the library is turned into one of the generator. -/
def call (library : LibraryCall → Option Text) (toFault : Text → GeneratorFault) (c : LibraryCall) :
    Action Unit := do
  Action.emit (.called c)
  match library c with
  | some message => throw (libraryFault (toFault message))
  | none => return

def render (library : LibraryCall → Option Text) (id : Value) (s : Schema) (directory : Path) :
    Action Unit := do
  match s.text with
  | .ok t => call library .rejected (.fromJson t)
  | .error f => throw (libraryFault (.rejected f.message))
  Action.makeDirectories directory
  Action.change (·.touch (directory ++ Path.ofText "__init__.py"))
  let d := directory.text
  for c in [LibraryCall.programId id d, .errors d, .instructions d, .types d, .accounts d] do
    call library .broken c

/-- The generator that renders a client with the library. -/
def library (given : Option Text) : Generator where
  name := libraryName
  generate host s directory := do
    let id ← match programId given s with
      | .ok id => pure id
      | .error f => throw f
    match host.library with
    | none => throw (libraryFault .notInstalled)
    | some l => render l id s directory

end Generator

end SchemaGraft
