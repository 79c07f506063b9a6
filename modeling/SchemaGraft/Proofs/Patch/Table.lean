import SchemaGraft.Proofs.Patch.Owners
import SchemaGraft.Table.Phoenix
import SchemaGraft.Table.Validation

/-!
# Looking Rules Up

In a table without a conflict, at most one rule matches a name, and look-up finds it.

## Architecture

- **Conflicts**: `PatchTable.claimants_length` counts the rules that match a name;
  `PatchTable.conflict?_eq_none_iff`.
- **Look-up**: `PatchTable.rule?` with `PatchTable.ruleFor_eq`.
-/

namespace SchemaGraft

namespace PatchRule

/-- A rule claims its names and its aliases. -/
theorem claims_iff {r : PatchRule} {name : Text} :
    r.claims name = true ↔ name ∈ r.names ∨ name ∈ r.aliases := by
  rw [claims, List.contains_iff_mem, allNames, List.mem_append]

end PatchRule

namespace PatchTable

/-! ## Conflicts -/

theorem claimants_go_length (name : Text) (i : ℕ) (rules : List PatchRule) :
    (claimants.go name i rules).length = (rules.filter (·.claims name)).length := by
  induction rules generalizing i with
  | nil => rfl
  | cons r rest ih =>
    rw [claimants.go]
    rw [List.filter_cons]
    split
    · rw [List.length_cons, List.length_cons, ih]
    · exact ih (i + 1)

/-- As many rules claim a name as there are places for it. -/
theorem claimants_length (t : PatchTable) (name : Text) :
    (t.claimants name).length = (t.rules.filter (·.claims name)).length :=
  claimants_go_length name 0 t.rules

/-- Without a conflict, no two rules match a name. -/
theorem claiming_length_le (t : PatchTable) (ht : t.conflict? = none) (name : Text) :
    (t.rules.filter (·.claims name)).length ≤ 1 := by
  by_contra hmany
  -- one of the rules lists the name, so the conflict would have been found there
  obtain ⟨r, hr⟩ : ∃ r, r ∈ t.rules.filter (·.claims name) :=
    List.exists_mem_of_length_pos (by omega)
  obtain ⟨hr, hclaims⟩ := List.mem_filter.mp hr
  have hlisted : name ∈ t.rules.flatMap (·.allNames) :=
    List.mem_flatMap.mpr ⟨r, hr, List.contains_iff_mem.mp hclaims⟩
  rw [conflict?_eq, List.findSome?_eq_none_iff] at ht
  have hnone := ht name hlisted
  rw [claimants_length, if_pos (by omega)] at hnone
  cases hnone

/-- A table has no conflict exactly when no two of its rules match a name. -/
theorem conflict?_eq_none_iff {t : PatchTable} :
    t.conflict? = none ↔ ∀ name, (t.rules.filter (·.claims name)).length ≤ 1 := by
  refine ⟨t.claiming_length_le, fun h => ?_⟩
  rw [conflict?_eq, List.findSome?_eq_none_iff]
  intro name _
  rw [claimants_length, if_neg (Nat.not_lt.mpr (h name))]

/-- No two rules of the built-in table match a name. -/
theorem conflict?_phoenix : phoenix.conflict? = none := by
  decide +kernel

/-! ## Look-Up -/

/-- The first rule that matches a name. -/
def rule? (t : PatchTable) (name : Text) : Option PatchRule :=
  t.rules.find? (·.claims name)

/-- The rule for a name is the first that claims it. -/
theorem rule?_eq_head? (t : PatchTable) (name : Text) :
    t.rule? name = (t.rules.filter (·.claims name)).head? :=
  List.head?_filter.symm

/-- **Without a conflict, look-up is never ambiguous.** -/
theorem ruleFor_eq {t : PatchTable} (ht : t.conflict? = none) (name : Text) :
    t.ruleFor name = .ok (t.rule? name) := by
  have hlength := t.claiming_length_le ht name
  rw [ruleFor, rule?_eq_head?]
  cases h : t.rules.filter (·.claims name) with
  | nil => rfl
  | cons r rest =>
    cases rest with
    | nil => rfl
    | cons r' rest => simp [h] at hlength

theorem mem_rules_of_rule? {t : PatchTable} {name : Text} {r : PatchRule}
    (h : t.rule? name = some r) : r ∈ t.rules :=
  List.mem_of_find?_eq_some h

end PatchTable

end SchemaGraft
