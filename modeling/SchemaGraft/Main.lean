import SchemaGraft.CommandLine.Session

/-!
# The program

Takes a picture of the current directory, carries out the command line in it, and writes back what has
changed.  Only this module touches the real file system.  It starts no tools, so every command that needs
one reports it as missing.
-/

namespace SchemaGraft

namespace Program

/-! ## Files -/

/-- The greatest depth of directories that is looked at. -/
def maxDepth : Nat := 64

/-- A file or a directory with everything below it, down to a number of levels. -/
def picture (depth : Nat) (parent : Location) (file : IO.FS.DirEntry) : IO (List (Location × Entry)) := do
  let here := parent ++ [Text.ofString file.fileName]
  if ← file.path.isDir then
    match depth with
    | 0 => return [(here, .directory)]
    | depth + 1 =>
      let below ← (← file.path.readDir).toList.mapM (picture depth here)
      return (here, .directory) :: below.flatten
  else
    return [(here, .file (← IO.FS.readBinFile file.path).toList)]

/-- The location of the directory for temporary files. -/
def temporary : Location :=
  ["tmp"]

def currentTree : IO FileTree := do
  let directory ← IO.currentDir
  let home := (Path.ofText (Text.ofString directory.toString)).parts
  let parents := (List.range (home.length + 1)).map home.take
  let directories := (temporary :: parents).filter fun l => !l.isEmpty
  let below ← (← directory.readDir).toList.mapM (picture maxDepth home)
  return { home, entries := (directories.eraseDups.map fun l => (l, .directory)) ++ below.flatten }

/-- A text as a string; lone surrogates are left out. -/
def printable (t : Text) : String :=
  String.ofList (t.filterMap fun
    | .scalar c => some c
    | .surrogate _ => none)

/-- Writes what is new or has changed below the current directory. -/
def writeBack (before after : FileTree) : IO Unit := do
  for (names, entry) in after.below after.home do
    if before.entry? (after.home ++ names) ≠ some entry then
      let name := printable (Text.join "/" names)
      match entry with
      | .directory => IO.FS.createDirAll name
      | .file content => IO.FS.writeBinFile name ⟨content.toArray⟩

/-! ## Output -/

def tableLines (t : TextTable) : List Text :=
  t.title :: (t.columns :: t.rows).map (Text.join " | ")

/-- Shows an event; notices below a threshold are left out. -/
def showEvent (threshold : Nat) : Event → IO Unit
  | .noticed n =>
    if threshold ≤ n.level.weight then IO.eprintln (n.level.name ++ " " ++ printable n.message)
    else return
  | .received .output piece => IO.print (printable piece)
  | .received .error piece => IO.eprint (printable piece)
  | .printed line => IO.eprintln (printable line)
  | .tabulated t => (tableLines t).forM fun l => IO.println (printable l)
  | .started .. | .generated .. | .called _ => return

/-- No tool can be started, and there is no library. -/
def host : Host where
  launch argv _ := .error (.access (.system .notFound (argv.headD [])))
  temporary := temporary

def abort (f : Fault) : IO UInt32 := do
  IO.eprintln (printable f.message)
  return 1

/-- Carries out a command line and gives its exit status. -/
def run (words : List String) : IO UInt32 := do
  match LogLevel.threshold ((← IO.getEnv "LOG_LEVEL").map Text.ofString) with
  | .error f => abort (.level f)
  | .ok threshold =>
    let before ← currentTree
    let action := CommandLine.execute host .builtin (words.map Text.ofString)
    let (outcome, world) := action.run.run { files := before }
    world.trace.forM (showEvent threshold)
    writeBack before world.files
    match outcome with
    | .ok (.status code) => return code.toUInt32
    | .ok .misuse =>
      IO.eprintln "The command line is not understood."
      return 2
    | .error f => abort f

end Program

end SchemaGraft

/-- Carries out the command line of the program. -/
def main (words : List String) : IO UInt32 :=
  SchemaGraft.Program.run words
