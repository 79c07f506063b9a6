import SchemaGraft.Fault
import SchemaGraft.Text.Newline
import SchemaGraft.World.Event

/-!
# Actions

Operations on files and on what shows outside.  An action that fails keeps what it has done so far.

## Architecture

- `World` is what actions change, `Host` what they cannot choose: how tools behave, whether the library
  that renders clients is there, and where temporary files go.
- `Action` is the type of actions; the operations of a `FileTree` become actions here.
- `Action.inFreshDirectory` gives an action a temporary directory of its own.
-/

namespace SchemaGraft

structure World where
  files : FileTree
  -- what has shown outside so far, in order
  trace : List Event := []

/-- What a tool did: the files as it left them, its exit status, and what it wrote, in the portions in
which it wrote it. -/
structure Execution where
  -- the files after the tool has started
  files : FileTree
  status : Int := 0
  -- the portions of the standard output
  output : List Bytes := []
  -- the portions of the standard error
  error : List Bytes := []

structure Host where
  -- what happens when a tool is started
  launch : List Text → FileTree → Except Fault Execution
  -- the library that renders clients, if it is there: the fault that each call of it raises, if any
  library : Option (LibraryCall → Option Text) := none
  temporary : Location

abbrev Action (α : Type) := ExceptT Fault (StateM World) α

namespace Action

/-! ## What shows outside -/

def emit (e : Event) : Action Unit :=
  modify fun w => { w with trace := w.trace ++ [e] }

/-- Logs a notice.  One that has no wording is not logged, and stops the action. -/
def note (n : Notice) : Action Unit :=
  if n.isPrintable then emit (.noticed n) else throw .unprintable

/-! ## Files -/

def look {α : Type} (f : FileTree → Except AccessFault α) : Action α := do
  match f (← get).files with
  | .ok a => return a
  | .error e => throw (.access e)

/-- Carries an operation on files out; what it has done remains when it fails. -/
def change (f : FileTree → FileTree × Except AccessFault Unit) : Action Unit := do
  let (files, outcome) := f (← get).files
  modify fun w => { w with files }
  match outcome with
  | .ok () => return
  | .error e => throw (.access e)

def read (p : Path) : Action Bytes :=
  look (·.read p)

def readText (p : Path) : Action (List Char) := do
  match Utf8.decode (← read p) with
  | .ok cs => return unifyNewlines cs
  | .error f => throw (.undecodable f)

def write (p : Path) (content : Bytes) : Action Unit :=
  change (·.write p content)

/-- Writes a text into a file.  The file is there, without content, even when the text cannot be
encoded. -/
def writeText (p : Path) (t : Text) : Action Unit := do
  write p []
  match Utf8.encode t with
  | .ok content => write p content
  | .error f => throw (.unencodable f)

/-- Makes a directory and the parents that are missing. -/
def makeDirectories (p : Path) : Action Unit :=
  change (·.makeDirectories p)

/-! ## Temporary files -/

/-- The name of the temporary directory with a given number. -/
def temporaryName (n : Nat) : Text :=
  "idl-pilot-" ++ Text.ofNat n

/-- The first number for which there is no temporary directory yet. -/
def freeNumber (t : FileTree) (temporary : Location) : Nat :=
  ((List.range (t.entries.length + 1)).find? fun n =>
    Option.isNone <| t.entry? (temporary ++ [temporaryName n])).getD 0

/-- Gives an action a new directory of its own, which is taken away when the action ends. -/
def inFreshDirectory {α : Type} (host : Host) (body : Path → Action α) : Action α := do
  let here := host.temporary ++ [temporaryName (freeNumber (← get).files host.temporary)]
  modify fun w => { w with files := w.files.put here .directory }
  let cleanUp : Action Unit := modify fun w => { w with files := w.files.remove here }
  let a ← tryCatch (body ⟨.absolute, here⟩) fun f => do
    cleanUp
    throw f
  cleanUp
  return a

/-- The temporary files that are there, with their content. -/
def temporaryFiles (host : Host) (t : FileTree) : List (Text × Bytes) :=
  (t.below host.temporary).filterMap fun m =>
    match m.2 with
    | .file content => some ((Path.mk .absolute (host.temporary ++ m.1)).text, content)
    | .directory => none

/-! ## Tools -/

def launch (host : Host) (argv : List Text) : Action Execution := do
  emit (.started argv (temporaryFiles host (← get).files))
  match host.launch argv (← get).files with
  | .ok e =>
    modify fun w => { w with files := e.files }
    return e
  | .error f => throw f

end Action

end SchemaGraft
