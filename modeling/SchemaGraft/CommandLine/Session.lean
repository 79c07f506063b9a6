import SchemaGraft.CommandLine.Command
import SchemaGraft.CommandLine.Markup
import SchemaGraft.Config.Loading
import SchemaGraft.Extraction
import SchemaGraft.Generation

/-!
# Carrying out commands

Each command of the command line, with what it prints.  A fault that the pipeline foresees is printed and
makes the exit status one; other faults are let through.
-/

namespace SchemaGraft

namespace CommandLine

inductive Exit where
  | status (code : Nat)
  | misuse
deriving DecidableEq, Repr

/-! ## Output -/

/-- The text that is shown for a text with style tags. -/
def shown (t : Text) : Action Text :=
  match Markup.render t with
  | .ok t => return t
  | .error f => throw (.markup f)

def print (t : Text) : Action Unit := do
  Action.emit (.printed (← shown t))

def printGreen (t : Text) : Action Unit :=
  print ("[green]" ++ t ++ "[/green]")

def printTable (t : TextTable) : Action Unit := do
  let title ← shown t.title
  let columns ← t.columns.mapM shown
  let rows ← t.rows.mapM (·.mapM shown)
  Action.emit (.tabulated { title, columns, rows })

def commaList (names : List Text) : Text :=
  Text.join ", " names

/-- The table for a report; lists without names have no row. -/
def reportTable (r : Report) : TextTable where
  title := "IDL Patch Summary (" ++ r.tableVersion ++ ")"
  columns := ["Status", "Instructions"]
  rows :=
    let rows : List (Text × List Text) := [("patched", r.patched),
      ("already present", r.alreadyPresent), ("conflicting", r.conflicting),
      ("missing from schema", r.missing), ("undefined types", r.unknownTypes)]
    (rows.filter (!·.2.isEmpty)).map fun row => [row.1, commaList row.2]

/-- The table for a patch table: a row for each rule. -/
def rulesTable (t : PatchTable) : TextTable where
  title := "Patch table " ++ t.version
  columns := ["Instructions", "Appended argument", "Aliases"]
  rows := t.rules.map fun r =>
    [commaList r.names, r.append.name ++ ": " ++ r.append.type.display, commaList r.aliases]

/-! ## Commands -/

def inFreshRun {α : Type} (s : Stage α) : Action α := do
  let (outcome, p) := s.run.run { world := ← get }
  set p.world
  match outcome with
  | .ok a => return a
  | .error f => throw f

/-- The configuration at a path, and the patch table that it names. -/
def loadBoth (config : Option Text) : Action (Config × PatchTable) := do
  let c ← Config.load config
  return (c, ← PatchTable.load c.patchTable)

/-- The path in an argument; it must be one that the file system can look up. -/
def argumentPath (t : Text) : Action Path :=
  match Utf8.encodePath t with
  | .error f => throw (.access (.unencodable f))
  | .ok bs => if bs.contains 0 then throw (.access .nullByte) else return Path.ofText t

def patch (p : Path) (table : Option Text) (isStrict : Bool) : Action Nat := do
  let t ← PatchTable.load table
  let (_, report) ← inFreshRun (t.patchFile isStrict p)
  printTable (reportTable report)
  printGreen ("Patched " ++ p.text)
  return 0

/-- Reports on a schema file without patching it. -/
def check (p : Path) (table : Option Text) (isStrict : Bool) : Action Nat := do
  let t ← PatchTable.load table
  match t.coverage (← Schema.load p) with
  | .error a => throw (.pipeline (.ambiguousRule a))
  | .ok report =>
    printTable (reportTable report)
    return if isStrict && !report.missing.isEmpty then 1 else 0

def extract (host : Host) (config : Option Text) : Action Nat := do
  let (c, t) ← loadBoth config
  let (_, report) ← inFreshRun (Extraction.run host c t)
  printTable (reportTable report)
  printGreen ("IDL written to " ++ c.schemaPath.text)
  return 0

/-- Generates a client and says so; a formatter that is left over runs after that. -/
def generateClient (host : Host) (registry : Registry) (c : Config) (wait : Option Bool)
    (summary : Text) : Stage Client := do
  let client ← Generation.generate host registry c none wait
  Stage.act do
    printGreen (summary ++ " " ++ Markup.escape client.directory.text)
    return { client with pending := none, isFormatted := ← Generation.join host client }

/-- A configuration with the generator that was asked for, if one was. -/
def withGenerator (c : Config) (generator : Option Text) : Config :=
  match generator with
  | none | some [] => c
  | some g => { c with generator := g }

def generate (host : Host) (registry : Registry) (config generator : Option Text)
    (wait : Option Bool) : Action Nat := do
  let c := withGenerator (← Config.load config) generator
  discard (inFreshRun (generateClient host registry c wait "Client generated in"))
  return 0

/-- Extracts a schema, patches it and generates a client. -/
def endToEnd (host : Host) (registry : Registry) (c : Config) (t : PatchTable) : Stage Unit := do
  let (_, report) ← Extraction.run host c t
  Stage.act (printTable (reportTable report))
  discard (generateClient host registry c none "Done: client generated in")

/-- Takes a configuration and its patch table through all stages in one run. -/
def runAll (host : Host) (registry : Registry) (config : Option Text) : Action Nat := do
  let (c, t) ← loadBoth config
  inFreshRun (endToEnd host registry c t)
  return 0

def rules (table : Option Text) : Action Nat := do
  let t ← PatchTable.load table
  if t.rules.all (·.append.type.isPrintable) then printTable (rulesTable t) else throw .unprintable
  return 0

/-- Carries out a command whose path argument, if it has one, can be looked up. -/
def carryOut (host : Host) (registry : Registry) : Command → Action (Action Nat)
  | .patch path table isStrict isCheck => do
    let p ← argumentPath path
    return if isCheck then check p table isStrict else patch p table isStrict
  | .extract config => return extract host config
  | .generate config generator wait => return generate host registry config generator wait
  | .run config => return runAll host registry config
  | .rules table => return rules table

/-- Prints a foreseen fault instead of letting it through. -/
def reporting (body : Action Nat) : Action Nat :=
  tryCatch body fun f => do
    if f.isForeseen then
      print ("[red]Failed:[/red] " ++ Markup.escape f.message)
      return 1
    else
      throw f

/-- Carries out what the words of a command line ask for. -/
def execute (host : Host) (registry : Registry) (words : List Text) : Action Exit := do
  match request words with
  | none => return .misuse
  | some .help => return .status 0
  | some (.carryOut command) => return .status (← reporting (← carryOut host registry command))

end CommandLine

end SchemaGraft
