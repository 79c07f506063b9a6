import SchemaGraft.Config.Basic
import SchemaGraft.Patch.File
import SchemaGraft.Tool.Launch
import SchemaGraft.Tool.Template

/-!
# Extraction

A tool extracts the schema of a program into a file, which is then patched.
-/

namespace SchemaGraft

namespace Extraction

def hint : Text :=
  "Ensure that \x60shank\x60 is installed and on your PATH (cargo install shank-cli), see:\n" ++
    "  https://github.com/metaplex-foundation/shank"

def command (c : Config) : List Text :=
  c.extractor ::
    Template.render [("out_dir", c.idlDir), ("crate_root", c.crateRoot)] c.extractorArgs

/-- Runs the extractor, which must report success. -/
def extract (host : Host) (c : Config) : Action Unit := do
  let argv := command c
  Action.note (.extracting argv)
  let status ← Tool.run host argv c.extractor (some hint)
  if status ≠ 0 then
    throw (.pipeline (.toolFailed c.extractor status))

def run (host : Host) (c : Config) (t : PatchTable) : Stage (Schema × Report) := do
  Stage.advance .extracting
  Stage.recording (Stage.act (extract host c))
  Stage.act (Action.note (.mutating c.schemaPath.text))
  t.patchFile c.strictCoverage c.schemaPath

end Extraction

end SchemaGraft
