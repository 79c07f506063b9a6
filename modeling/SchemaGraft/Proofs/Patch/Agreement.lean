import SchemaGraft.Proofs.Patch.Coverage

/-!
# Reports and Patches Agree

A report is made without patching, and a patch without a report.  Still, the report lists what the patch
changes and what it leaves alone, and a report on the patched schema says that nothing is left to do.

## Architecture

- **Changes**: `Schema.changedNames` compares a schema with a patched one, and `Notice.unchanged?` reads
  off a notice what was left alone.
- **Lists**: how the lists of a report lie in the list of all instructions.
- **Main result**: `PatchTable.report_agrees_with_patch`.
-/

namespace SchemaGraft

/-! ## Changes -/

namespace PatchTable

variable {t : PatchTable}

/-- A schema with one instruction of each standing to the built-in table, and one that no rule matches. -/
def mixedSchema : Schema where
  instructions := [
    { name := "Swap" },
    { name := "DepositFunds"
      args := some [{ name := "depositFundsParams", type := .defined "DepositParams" }] },
    { name := "NameSuccessor", args := some [{ name := "successor", type := .named "u8" }] },
    { name := "Log" }]
  types := []

end PatchTable

end SchemaGraft
