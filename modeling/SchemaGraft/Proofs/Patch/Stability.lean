import SchemaGraft.Proofs.Patch.Coverage
import SchemaGraft.Proofs.Schema.RoundTrip

/-!
# Patches That Were Written and Read Again

A patch goes by the names of instructions and arguments.  These come back when a schema has been written
and read, so that a second patch finds nothing to do, even where the appended argument itself comes back
changed.

## Architecture

- **Well-formed tables**: `PatchTable.WellFormed`; patching with such a table keeps schemas well formed.
- **Outlines**: `Schema.outline`, the names that a patch goes by, and `PatchTable.lacks`.
- **Stability**: `PatchTable.patchedSchema_eq_self` and `PatchTable.stable`.
-/

namespace SchemaGraft

open Json (names)

/-! ## Well-Formed Tables -/

/-- What an argument must be like to come back when it has been written. -/
def Argument.WellFormed (a : Argument) : Prop :=
  Format.argument.WellFormed a

/-- A table as it is made from a document (see `PatchTable.wellFormed_of_ofValue`): look-up is never
ambiguous, and what is appended comes back. -/
structure PatchTable.WellFormed (t : PatchTable) : Prop where
  /-- No two rules match a name. -/
  unambiguous : t.conflict? = none
  /-- The appended arguments are well formed. -/
  append : ∀ r ∈ t.rules, r.append.WellFormed

/-- An argument without other members is well formed. -/
theorem Argument.wellFormed_of_extra_nil {a : Argument} (h : a.extra = []) : a.WellFormed := by
  refine ⟨trivial, trivial, ?_⟩
  show (names a.extra).Nodup ∧ ∀ n ∈ names a.extra, _
  rw [h]
  exact ⟨List.nodup_nil, by simp⟩

/-- The built-in table is well-formed. -/
theorem PatchTable.wellFormed_phoenix : phoenix.WellFormed where
  unambiguous := conflict?_phoenix
  append := by
    intro r hr
    apply Argument.wellFormed_of_extra_nil
    revert r
    decide

namespace Schema

theorem WellFormed.withInstructions {s : Schema} (hs : s.WellFormed) {ixs : List Instruction}
    (hixs : ∀ ix ∈ ixs, Format.instruction.WellFormed ix) (hnodup : (ixs.map (·.name)).Nodup) :
    WellFormed { s with instructions := ixs } :=
  ⟨hs.1, hs.2.1, ⟨hixs, hnodup⟩, hs.2.2.2⟩

theorem WellFormed.instruction {s : Schema} (hs : s.WellFormed) :
    ∀ ix ∈ s.instructions, Format.instruction.WellFormed ix :=
  hs.2.2.1.1

theorem WellFormed.nodup {s : Schema} (hs : s.WellFormed) : s.instructionNames.Nodup :=
  hs.2.2.1.2

end Schema

theorem Instruction.wellFormed_push {ix : Instruction} {a : Argument}
    (hix : Format.instruction.WellFormed ix) (ha : a.WellFormed) :
    Format.instruction.WellFormed (ix.push a) := by
  refine ⟨trivial, ?_, hix.2.2⟩
  rintro args hargs b hb
  cases hargs
  rcases List.mem_append.mp hb with hb | hb
  · rw [arguments] at hb
    cases hix' : ix.args with
    | none => simp [hix'] at hb
    | some args => exact hix.2.1 args hix' b (by simpa [hix'] using hb)
  · rw [List.mem_singleton.mp hb]
    exact ha

namespace PatchTable

variable {t : PatchTable}

/-- Patching keeps an instruction well-formed. -/
theorem WellFormed.patched (ht : t.WellFormed) {ix : Instruction}
    (hix : Format.instruction.WellFormed ix) : Format.instruction.WellFormed (t.patched ix) := by
  by_cases h : (t.standing? ix).any Standing.isLacking = true
  · obtain ⟨rule, hrule, hlacking⟩ := any_isLacking_iff.mp h
    rw [patched_of_lacking hrule hlacking]
    exact Instruction.wellFormed_push hix (ht.append rule (mem_rules_of_rule? hrule))
  · rw [patched_of_not_lacking (Bool.eq_false_iff.mpr h)]
    exact hix

/-- Patching with a well-formed table keeps schemas well formed. -/
theorem WellFormed.patchedSchema (ht : t.WellFormed) {s : Schema} (hs : s.WellFormed) :
    (t.patchedSchema s).WellFormed := by
  refine hs.withInstructions (fun ix' hix' => ?_) ?_
  · obtain ⟨ix, hix, rfl⟩ := List.mem_map.mp hix'
    exact ht.patched (hs.instruction ix hix)
  · have hnames := instructionNames_patchedSchema t s
    rw [Schema.instructionNames, PatchTable.patchedSchema] at hnames
    rw [hnames]
    exact hs.nodup

end PatchTable

/-! ## Outlines -/

/-- The name of an instruction and the names of its arguments. -/
def Instruction.outline (ix : Instruction) : Text × List Text :=
  (ix.name, ix.arguments.map (·.name))

/-- The names that a patch goes by. -/
def Schema.outline (s : Schema) : List (Text × List Text) :=
  s.instructions.map Instruction.outline

theorem Instruction.outline_rebuild (mapping extra : List (Text × Value) → List (Text × Value))
    (ix : Instruction) : (ix.rebuild mapping extra).outline = ix.outline := by
  rw [outline, outline, arguments, arguments, rebuild]
  cases ix.args with
  | none => rfl
  | some args => simp [Argument.rebuild]

@[simp] theorem Schema.outline_rebuild (mapping extra : List (Text × Value) → List (Text × Value))
    (s : Schema) : (s.rebuild mapping extra).outline = s.outline := by
  rw [outline, outline, rebuild, List.map_map]
  exact List.map_congr_left fun ix _ => Instruction.outline_rebuild mapping extra ix

/-- Schemas that come back have the outline of the schema that was written. -/
theorem Schema.outline_eq_of_ordered {s s' : Schema} (h : s'.ordered = s.settled.ordered) :
    s'.outline = s.outline ∧ s'.typeNames = s.typeNames := by
  have houtline := congrArg outline h
  have htypes := congrArg typeNames h
  simp only [ordered, settled, outline_rebuild, typeNames_rebuild] at houtline htypes
  exact ⟨houtline, htypes⟩

/-- The outline holds the names of the instructions. -/
theorem Schema.instructionNames_eq_outline (s : Schema) :
    s.instructionNames = s.outline.map (·.1) := by
  rw [instructionNames, outline, List.map_map]
  rfl

namespace PatchTable

variable {t : PatchTable}

/-- Does an instruction of the given outline lack the argument of the rule that matches it? -/
def lacks (t : PatchTable) (outline : Text × List Text) : Bool :=
  (t.rule? outline.1).any fun r => !outline.2.contains r.append.name

/-- The outline tells whether an instruction lacks the argument. -/
theorem any_isLacking_eq_lacks (t : PatchTable) (ix : Instruction) :
    (t.standing? ix).any Standing.isLacking = t.lacks ix.outline := by
  rw [standing?, lacks, Instruction.outline, Option.any_map]
  dsimp only
  cases t.rule? ix.name with
  | none => rfl
  | some r =>
    rw [Option.any_some, Option.any_some, Bool.eq_iff_iff, Instruction.standing_isLacking_iff]
    simp

/-- An outline lacks an argument if the rule for the name finds none. -/
theorem lacks_iff {ix : Instruction} :
    t.lacks ix.outline = true ↔
      ∃ rule, t.rule? ix.name = some rule ∧ (ix.standing rule.append).isLacking = true := by
  rw [← any_isLacking_eq_lacks, any_isLacking_iff]

theorem namesOf_isLacking_eq (t : PatchTable) (s : Schema) :
    t.namesOf Standing.isLacking s.instructions = (s.outline.filter t.lacks).map (·.1) := by
  rw [namesOf, Schema.outline, List.filter_map, List.map_map]
  simp only [any_isLacking_eq_lacks]
  rfl

/-! ## Stability -/

/-- A patched instruction does not lack its argument. -/
theorem lacks_patched (t : PatchTable) (ix : Instruction) :
    t.lacks (t.patched ix).outline = false := by
  by_cases h : (t.standing? ix).any Standing.isLacking = true
  · obtain ⟨rule, hrule, hlacking⟩ := any_isLacking_iff.mp h
    -- the argument was added under the name that is looked for
    have hname : (ix.push rule.append).name = ix.name := rfl
    rw [patched_of_lacking hrule hlacking, lacks, Instruction.outline, arguments_push, hname]
    dsimp only
    rw [hrule]
    simp
  · rw [patched_of_not_lacking (Bool.eq_false_iff.mpr h), ← any_isLacking_eq_lacks]
    exact Bool.eq_false_iff.mpr h

/-- In a patched schema nothing is lacking. -/
theorem lacks_of_mem_outline {s : Schema} :
    ∀ o ∈ (t.patchedSchema s).outline, t.lacks o = false := by
  rw [Schema.outline, patchedSchema, List.map_map]
  intro o ho
  obtain ⟨ix, -, rfl⟩ := List.mem_map.mp ho
  exact lacks_patched t ix

/-- Where nothing is lacking, a patch changes nothing. -/
theorem patchedSchema_eq_self {s : Schema} (h : ∀ o ∈ s.outline, t.lacks o = false) :
    t.patchedSchema s = s := by
  have hsame : s.instructions.map t.patched = s.instructions := by
    refine (List.map_congr_left fun ix hix => ?_).trans (List.map_id _)
    apply patched_of_not_lacking
    rw [any_isLacking_eq_lacks]
    exact h _ (List.mem_map_of_mem hix)
  rw [patchedSchema, hsame]

/-- **A patched schema that was written and read again is not patched again.** -/
theorem stable {s s' : Schema} (h : s'.ordered = (t.patchedSchema s).settled.ordered) :
    t.patchedSchema s' = s' ∧ t.namesOf Standing.isLacking s'.instructions = [] ∧
      t.missingFrom s' = t.missingFrom s ∧ t.unknownTypes s' = t.unknownTypes s := by
  -- all that a table asks of a schema is told from its outline
  obtain ⟨houtline, htypes⟩ := Schema.outline_eq_of_ordered h
  have hnone : ∀ o ∈ s'.outline, t.lacks o = false := by
    rw [houtline]
    exact lacks_of_mem_outline
  refine ⟨patchedSchema_eq_self hnone, ?_, ?_, ?_⟩
  · rw [namesOf_isLacking_eq, List.filter_eq_nil_iff.mpr fun o ho => by simp [hnone o ho]]
    rfl
  · rw [← missingFrom_patchedSchema t s, missingFrom, missingFrom,
      Schema.instructionNames_eq_outline, houtline, ← Schema.instructionNames_eq_outline]
  · rw [unknownTypes, htypes]
    rfl

end PatchTable

end SchemaGraft
