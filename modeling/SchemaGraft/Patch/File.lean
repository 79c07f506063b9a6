import SchemaGraft.Patch.Apply
import SchemaGraft.Run.Stage
import SchemaGraft.Schema.File

/-!
# Patching files

A schema file is read, patched and written back.  Nothing is written unless every step before the writing
has succeeded.
-/

namespace SchemaGraft

/-- The fault of a pipeline for a schema that was not patched. -/
def ApplyFault.toFault : ApplyFault → Fault
  | .ambiguous a => .pipeline (.ambiguousRule a)
  | .tooDeep => .tooDeep

/-- The fault of a pipeline for a schema that was not patched. -/
def PatchFault.toFault : PatchFault → Fault
  | .refused f => f.toFault
  | .drift missing => .pipeline (.drift missing)

namespace PatchTable

/-- Patches a schema and logs what there is to note. -/
def patching (t : PatchTable) (strict : Bool) (s : Schema) : Action (Schema × Report) := do
  let (notices, outcome) := t.patch strict s
  notices.forM Action.note
  match outcome with
  | .ok patched => return patched
  | .error f => throw f.toFault

/-- Reads a schema file, patches the schema and writes it back; says whether the file has changed. -/
def updateFile (t : PatchTable) (strict : Bool) (p : Path) : Action (Schema × Report × Bool) := do
  let s ← Schema.load p
  let (patched, report) ← t.patching strict s
  let changed ← patched.save p
  return (patched, report, changed)

def patchFile (t : PatchTable) (strict : Bool) (p : Path) : Stage (Schema × Report) := do
  Stage.advance .patching
  let (patched, report, changed) ← Stage.recording (Stage.act (t.updateFile strict p))
  Stage.act (Action.note (.saved p.text changed))
  Stage.advance .patched
  return (patched, report)

end PatchTable

end SchemaGraft
