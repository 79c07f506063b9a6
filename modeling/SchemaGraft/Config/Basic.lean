import SchemaGraft.Validation.Leaf
import SchemaGraft.World.Path

/-!
# Configuration

What a user can choose about the pipeline: where the program and its files are, which tools extract the
schema, generate the client and format it, and how strictly patches are checked.
-/

namespace SchemaGraft

structure Config where
  programName : Text := "phoenix"
  crateRoot : Text := "program"
  idlDir : Text := "idl"
  sdkDir : Text := "sdk/src/generated"
  extractor : Text := "shank"
  -- the arguments of the extractor, with placeholders
  extractorArgs : List Text := ["idl", "--out-dir", "\x7bout_dir\x7d", "--crate-root", "\x7bcrate_root\x7d"]
  generator : Text := "command"
  -- the command of the generator of that name, with placeholders
  generatorCommand : List Text := ["npx", "solita", "--idl", "\x7bschema\x7d", "--out", "\x7bout_dir\x7d"]
  -- the command that formats the client, with placeholders; there may be none
  formatter : Option (List Text) := some ["npx", "prettier", "--write", "\x7bout_dir\x7d"]
  -- is formatting part of generating?
  waitForFormatter : Bool := false
  -- the file of the patch table, if it is not the built-in one
  patchTable : Option Text := none
  -- must a schema have all the instructions that the patch table expects?
  strictCoverage : Bool := true

namespace Config

def schemaPath (c : Config) : Path :=
  Path.ofText c.idlDir ++ Path.ofText (c.programName ++ ".json")

/-- The path of the directory of the generated client. -/
def outDir (c : Config) : Path :=
  Path.ofText c.sdkDir

def formatter? (c : Config) : Option (List Text) :=
  match c.formatter with
  | none | some [] => none
  | some argv => some argv

def members : List String :=
  ["program_name", "crate_root", "idl_dir", "sdk_dir", "extractor", "extractor_args", "generator",
    "generator_command", "formatter", "wait_for_formatter", "patch_table", "strict_coverage"]

/-- Members that a configuration does not have. -/
def foreignMembers (ms : List (Scalar × Value)) : Checked Unit :=
  go (ms.filter fun m => !(members.any fun n => m.1 == .text (Text.ofString n)))
where
  /-- Each such member is an issue. -/
  go : List (Scalar × Value) → Checked Unit
    | [] => .ok ()
    | (k, _) :: rest =>
      (Checked.both (α := Unit) (β := Unit)
        (Checked.under (Check.keyStep k) (Checked.fail .extraForbidden)) (go rest)).map fun _ => ()

def texts : Value → Checked (List Text) :=
  Check.list Check.text

/-- The configuration that a value describes: members that are absent have their defaults, and there are
no other members than the declared ones. -/
def check (v : Value) : Checked Config := do
  let ms ← Check.record "PipelineConfig" v
  let base : Config := {}
  Check.readable ms <|
    (Checked.both (Check.possible ms "program_name" Check.text) <|
      Checked.both (Check.possible ms "crate_root" Check.text) <|
      Checked.both (Check.possible ms "idl_dir" Check.text) <|
      Checked.both (Check.possible ms "sdk_dir" Check.text) <|
      Checked.both (Check.possible ms "extractor" Check.text) <|
      Checked.both (Check.possible ms "extractor_args" texts) <|
      Checked.both (Check.possible ms "generator" Check.text) <|
      Checked.both (Check.possible ms "generator_command" texts) <|
      Checked.both (Check.possible ms "formatter" (Check.optional texts)) <|
      Checked.both (Check.possible ms "wait_for_formatter" Check.bool) <|
      Checked.both (Check.possible ms "patch_table" (Check.optional Check.text)) <|
      Checked.both (Check.possible ms "strict_coverage" Check.bool) <|
      foreignMembers ms).map
    fun (programName, crateRoot, idlDir, sdkDir, extractor, extractorArgs, generator, generatorCommand,
        formatter, waitForFormatter, patchTable, strictCoverage, _) =>
      { programName := programName.getD base.programName
        crateRoot := crateRoot.getD base.crateRoot
        idlDir := idlDir.getD base.idlDir
        sdkDir := sdkDir.getD base.sdkDir
        extractor := extractor.getD base.extractor
        extractorArgs := extractorArgs.getD base.extractorArgs
        generator := generator.getD base.generator
        generatorCommand := generatorCommand.getD base.generatorCommand
        formatter := formatter.getD base.formatter
        waitForFormatter := waitForFormatter.getD base.waitForFormatter
        patchTable := patchTable.getD base.patchTable
        strictCoverage := strictCoverage.getD base.strictCoverage }

end Config

end SchemaGraft
