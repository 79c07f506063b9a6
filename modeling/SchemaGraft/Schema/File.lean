import SchemaGraft.Schema.Canonical
import SchemaGraft.Schema.Validation
import SchemaGraft.World.Action

/-!
# Schema files

A schema is read from a JSON file and written back in canonical form.  A file that holds the canonical
text already is not touched.
-/

namespace SchemaGraft

namespace Schema

def malformed (source : Text) (f : SchemaFault) : Fault :=
  .pipeline (.malformedSchema source f)

def requiredMembers : List String :=
  ["instructions", "types"]

def ofJson (source : Text) (raw : Json) : Except Fault Schema :=
  match raw with
  | .object ms =>
    let lacking := requiredMembers.filter fun n => (Json.lookup (Text.ofString n) ms).isNone
    if lacking.isEmpty then
      match Schema.check (Value.ofJson raw) with
      | .ok s => .ok s
      | .error issues => .error (malformed source (.invalid issues))
    else
      .error (malformed source (.lacking lacking))
  | _ => .error (malformed source .notObject)

/-- The schema that the bytes of a file describe. -/
def ofBytes (source : Text) (content : Bytes) : Except Fault Schema :=
  match Utf8.decode content with
  | .error f => .error (malformed source (.notText f))
  | .ok cs =>
    match Json.read (unifyNewlines cs) with
    | .ok raw => ofJson source raw
    | .error (.grammar f) => .error (malformed source (.notJson f))
    | .error (.longInteger digits) => .error (.longInteger digits)
    | .error .tooDeep => .error .tooDeep

/-- The fault of a schema file whose path cannot be used. -/
def unreadable (source : Text) : AccessFault → Fault
  | .system .notFound _ => malformed source .absent
  | .system e _ => malformed source (.unreadable e)
  | f => .access f

def load (p : Path) : Action Schema := do
  match (← get).files.read p with
  | .error f => throw (unreadable p.text f)
  | .ok content =>
    match ofBytes p.text content with
    | .ok s => return s
    | .error f => throw f

def text (s : Schema) : Except Fault Text :=
  match s.canonical with
  | .ok t => .ok t
  | .error f => .error (.plain f)

/-- The content of a file that holds a schema in canonical form. -/
def bytes (s : Schema) : Except Fault Bytes := do
  match Utf8.encode (← s.text) with
  | .ok bs => return bs
  | .error f => throw (.unencodable f)

/-- Is there a file with the given content? -/
def isStored (t : FileTree) (p : Path) (content : Bytes) : Except AccessFault Bool := do
  if ← t.isFile? p then return (← t.read p) == content else return false

/-- Gives a file a content, unless it has that content already; says whether it has written. -/
def store (t : FileTree) (p : Path) (content : Bytes) : FileTree × Except AccessFault Bool :=
  match isStored t p content with
  | .error f => (t, .error f)
  | .ok true => (t, .ok false)
  | .ok false =>
    let (t, outcome) := t.write p content
    (t, outcome.map fun _ => true)

/-- The fault of a schema file that could not be written. -/
def unwritable (path : Text) : AccessFault → Fault
  | .system e _ => .pipeline (.unwrittenSchema path e)
  | f => .access f

/-- Writes a schema to a file in canonical form; says whether the file has changed. -/
def save (s : Schema) (p : Path) : Action Bool := do
  let content ← s.bytes
  let (files, outcome) := store (← get).files p content
  modify fun w => { w with files }
  match outcome with
  | .ok changed => return changed
  | .error f => throw (unwritable p.text f)

end Schema

end SchemaGraft
