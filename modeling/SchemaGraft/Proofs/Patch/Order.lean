import SchemaGraft.Proofs.Patch.Notices

/-!
# Patches and the Order of Members

A patch depends on the order of members in no way: schemas that are the same up to this order get the same
report, say the same as far as it can be said, and are patched to schemas that are the same up to order, or not
at all.

## Architecture

- **Reports**: `PatchTable.coverage_congr`.
- **Patched schemas**: `PatchTable.patchedSchema_congr`.
- **Copies**: `PatchTable.copies_congr`.
- **Whole patches**: `PatchTable.patch_respelled` for the outcome, and `PatchTable.isPrintable_notices_congr` for
  what is said.
-/

namespace SchemaGraft

open Except (LiftRel)

/-! ## Reports -/

/-- As data, a type is the same whatever the order of its members is. -/
theorem TypeRef.same_ordered (t w : TypeRef) :
    (t.mapMembers Value.orderedMembers).same w = t.same w := by
  cases t with
  | named n => rfl
  | composite ms =>
    rw [mapMembers, same, same, toValue, ← Value.ordered_object_entries, Value.same_ordered]
    rfl

/-- The instruction with all its mappings in order. -/
def Instruction.ordered : Instruction → Instruction :=
  Instruction.rebuild Value.orderedMembers Value.orderedMembers

/-- The standing with all mappings in order. -/
def Standing.ordered : Standing → Standing
  | .conflicting found => .conflicting (found.rebuild Value.orderedMembers Value.orderedMembers)
  | s => s

/-- Arguments are rebuilt one by one. -/
theorem Instruction.arguments_rebuild (mapping extra : List (Text × Value) → List (Text × Value))
    (ix : Instruction) :
    (ix.rebuild mapping extra).arguments = ix.arguments.map (Argument.rebuild mapping extra) := by
  rw [arguments, arguments, rebuild]
  cases ix.args <;> rfl

/-- So an instruction stands as it does with its mappings in order. -/
theorem Instruction.standing_ordered (ix : Instruction) (wanted : Argument) :
    ix.ordered.standing wanted = (ix.standing wanted).ordered := by
  rw [standing, standing, ordered, arguments_rebuild, List.find?_map]
  have hname : ((fun a : Argument => a.name == wanted.name) ∘
      Argument.rebuild Value.orderedMembers Value.orderedMembers) = fun a => a.name == wanted.name := rfl
  rw [hname]
  -- putting members in order keeps the names of the arguments, so the same one is found
  cases ix.arguments.find? (·.name == wanted.name) with
  | none => rfl
  | some found =>
    rw [Option.map_some]
    dsimp only [Argument.rebuild]
    rw [TypeRef.same_ordered]
    split <;> rfl

namespace PatchTable

variable {t : PatchTable}

/-- Which instructions are listed depends on how they stand, and on nothing else. -/
theorem namesOf_ordered (t : PatchTable) {kind : Standing → Bool}
    (hkind : ∀ s : Standing, kind s.ordered = kind s) (ixs : List Instruction) :
    t.namesOf kind (ixs.map Instruction.ordered) = t.namesOf kind ixs := by
  -- a kind does not tell an ordered standing from the standing itself
  have hstanding (ix : Instruction) :
      (t.standing? ix.ordered).any kind = (t.standing? ix).any kind := by
    rw [standing?, standing?]
    show ((t.rule? ix.name).map _).any kind = _
    cases t.rule? ix.name with
    | none => rfl
    | some rule => rw [Option.map_some, Option.map_some, Option.any_some, Option.any_some,
        Instruction.standing_ordered, hkind]
  rw [namesOf, namesOf, List.filter_map, List.map_map]
  simp only [Function.comp_def, hstanding]
  rfl

/-- The report on a schema does not depend on the order of members. -/
theorem coverage_ordered (ht : t.conflict? = none) (s : Schema) :
    t.coverage s.ordered = t.coverage s := by
  have hnames : s.ordered.instructionNames = s.instructionNames := by
    rw [Schema.instructionNames, Schema.ordered, Schema.rebuild, List.map_map]
    rfl
  have hinstructions : s.ordered.instructions = s.instructions.map Instruction.ordered := rfl
  have hmissing : t.missingFrom s.ordered = t.missingFrom s := by
    rw [missingFrom, hnames, missingFrom]
  have hunknown : t.unknownTypes s.ordered = t.unknownTypes s := by
    rw [unknownTypes, Schema.ordered, Schema.typeNames_rebuild, unknownTypes]
  rw [coverage_eq ht, coverage_eq ht, hinstructions, hmissing, hunknown]
  -- the lists go by the kind of a standing, which is the same whatever the order
  rw [namesOf_ordered t, namesOf_ordered t, namesOf_ordered t]
  all_goals
    intro s
    cases s <;> rfl

/-- **Schemas that are the same up to order get the same report.** -/
theorem coverage_congr (ht : t.conflict? = none) {s s' : Schema} (h : s.ordered = s'.ordered) :
    t.coverage s = t.coverage s' := by
  rw [← coverage_ordered ht s, h, coverage_ordered ht]

/-- Schemas that differ in the order of members only have the same report. -/
theorem reportOn_congr (ht : t.conflict? = none) {s s' : Schema} (h : s.ordered = s'.ordered) :
    t.reportOn s = t.reportOn s' :=
  Except.ok.inj ((coverage_eq_reportOn ht s).symm.trans
    ((coverage_congr ht h).trans (coverage_eq_reportOn ht s')))

/-! ## Patched Schemas -/

/-- The outline of an instruction has names only, and these keep their order. -/
theorem outline_ordered (ix : Instruction) : ix.ordered.outline = ix.outline :=
  Instruction.outline_rebuild _ _ ix

/-- So the same instructions lack an argument. -/
theorem lacks_congr {ix ix' : Instruction} (h : ix.ordered = ix'.ordered) :
    t.lacks ix.outline = t.lacks ix'.outline := by
  rw [← outline_ordered ix, h, outline_ordered]

/-- An argument that is appended may be put in order before or after. -/
theorem ordered_push (ix : Instruction) (a : Argument) :
    (ix.push a).ordered =
      ix.ordered.push (a.rebuild Value.orderedMembers Value.orderedMembers) := by
  rw [Instruction.push, Instruction.push, Instruction.ordered, Instruction.arguments_rebuild,
    Instruction.rebuild, Option.map_some, List.map_append]
  rfl

/-- A patch goes by names, so it does the same to instructions that are the same up to order. -/
theorem patched_cases {ix ix' : Instruction} (h : ix.ordered = ix'.ordered) :
    (∃ rule ∈ t.rules, t.patched ix = ix.push rule.append ∧ t.patched ix' = ix'.push rule.append) ∨
      t.patched ix = ix ∧ t.patched ix' = ix' := by
  have hlacks := lacks_congr (t := t) h
  cases hix : t.lacks ix.outline with
  | true =>
    obtain ⟨rule, hrule, hlacking⟩ := lacks_iff.mp hix
    obtain ⟨rule', hrule', hlacking'⟩ := lacks_iff.mp (hlacks.symm.trans hix)
    have hname : ix.name = ix'.name := by
      show ix.ordered.name = ix'.ordered.name
      rw [h]
    -- the names are the same, and so is the rule that matches them
    rw [← hname, hrule] at hrule'
    cases hrule'
    exact .inl ⟨rule, mem_rules_of_rule? hrule, patched_of_lacking hrule hlacking,
      patched_of_lacking (by rw [← hname, hrule]) hlacking'⟩
  | false =>
    refine .inr ⟨patched_of_not_lacking ?_, patched_of_not_lacking ?_⟩
    · rw [any_isLacking_eq_lacks, hix]
    · rw [any_isLacking_eq_lacks, ← hlacks, hix]

/-- Patched instructions differ in the order of members only, if they did so before. -/
theorem patched_congr {ix ix' : Instruction} (h : ix.ordered = ix'.ordered) :
    (t.patched ix).ordered = (t.patched ix').ordered := by
  rcases patched_cases (t := t) h with ⟨rule, -, hix, hix'⟩ | ⟨hix, hix'⟩
  · rw [hix, hix', ordered_push, ordered_push, h]
  · rw [hix, hix', h]

/-- **Patching schemas that are the same up to order gives schemas that are.** -/
theorem patchedSchema_congr {s s' : Schema} (h : s.ordered = s'.ordered) :
    (t.patchedSchema s).ordered = (t.patchedSchema s').ordered := by
  have hinstructions : s.instructions.map Instruction.ordered = s'.instructions.map Instruction.ordered :=
    congrArg Schema.instructions h
  have hpatched : (s.instructions.map t.patched).map Instruction.ordered =
      (s'.instructions.map t.patched).map Instruction.ordered := by
    rw [List.map_eq_map_iff_forall₂] at hinstructions
    rw [List.map_map, List.map_map, List.map_eq_map_iff_forall₂]
    exact hinstructions.imp fun ix ix' => patched_congr
  have hordered (s : Schema) : (t.patchedSchema s).ordered =
      { s.ordered with instructions := (s.instructions.map t.patched).map Instruction.ordered } := rfl
  rw [hordered, hordered, h, hpatched]

end PatchTable

/-! ## Copies -/

/-- An order of members is not a level of nesting. -/
theorem copyDepth_orderedMembers (ms : List (Text × Value)) :
    (Value.object (TypeRef.entries (Value.orderedMembers ms))).copyDepth =
      (Value.object (TypeRef.entries ms)).copyDepth := by
  rw [← Value.ordered_object_entries, Value.copyDepth_ordered]

/-- Neither is it one of a type. -/
theorem TypeRef.copyDepth_ordered (t : TypeRef) :
    (t.mapMembers Value.orderedMembers).toValue.copyDepth = t.toValue.copyDepth := by
  cases t with
  | named n => rfl
  | composite ms => exact copyDepth_orderedMembers ms

theorem Argument.copyDepth_ordered (a : Argument) :
    (a.rebuild Value.orderedMembers Value.orderedMembers).copyDepth = a.copyDepth := by
  rw [copyDepth, copyDepth, recordCopyDepth, recordCopyDepth, rebuild]
  dsimp only
  rw [TypeRef.copyDepth_ordered, copyDepth_orderedMembers]

/-- Nor of an instruction. -/
theorem Instruction.copyDepth_ordered (ix : Instruction) : ix.ordered.copyDepth = ix.copyDepth := by
  refine eq_of_forall_ge_iff fun n => ?_
  have hextra : ix.ordered.extra = Value.orderedMembers ix.extra := rfl
  rw [copyDepth_le_iff, copyDepth_le_iff, hextra, copyDepth_orderedMembers, ordered, arguments_rebuild]
  simp only [List.forall_mem_map, Argument.copyDepth_ordered]

/-- Whether a schema can be copied does not depend on the order of members. -/
theorem Schema.copyDepth_ordered (s : Schema) : s.ordered.copyDepth = s.copyDepth := by
  -- a depth is told from the limits that it keeps, each of which is one of all parts
  refine eq_of_forall_ge_iff fun n => ?_
  have haccounts : s.ordered.accounts.getD [] = (s.accounts.getD []).map Value.orderedMembers := by
    rw [ordered, rebuild]
    cases s.accounts <;> rfl
  have herrors : s.ordered.errors.getD [] =
      (s.errors.getD []).map (ErrorDef.rebuild Value.orderedMembers) := by
    rw [ordered, rebuild]
    cases s.errors <;> rfl
  have hinstructions : s.ordered.instructions = s.instructions.map Instruction.ordered := rfl
  have htypes : s.ordered.types = s.types.map (TypeDef.rebuild Value.orderedMembers) := rfl
  have hextra : s.ordered.extra = Value.orderedMembers s.extra := rfl
  have htype (t : TypeDef) : (t.rebuild Value.orderedMembers).copyDepth = t.copyDepth := by
    rw [TypeDef.copyDepth, TypeDef.copyDepth, recordCopyDepth, recordCopyDepth, TypeDef.rebuild,
      copyDepth_orderedMembers]
  have herror (e : ErrorDef) : (e.rebuild Value.orderedMembers).copyDepth = e.copyDepth := by
    rw [ErrorDef.copyDepth, ErrorDef.copyDepth, recordCopyDepth, recordCopyDepth, ErrorDef.rebuild,
      copyDepth_orderedMembers]
  rw [copyDepth_le_iff, copyDepth_le_iff, haccounts, herrors, hinstructions, htypes, hextra,
    copyDepth_orderedMembers]
  simp only [List.forall_mem_map, Instruction.copyDepth_ordered, htype, herror, copyDepth_orderedMembers]

namespace PatchTable

variable {t : PatchTable}

/-- What has to be copied of an instruction can be copied in any order. -/
theorem copies_ordered (t : PatchTable) (ix : Instruction) : t.copies ix.ordered = t.copies ix := by
  have hname : ix.ordered.name = ix.name := rfl
  rw [copies, copies, hname]
  cases t.rule? ix.name with
  | none => rfl
  | some rule =>
    rw [Option.all_some, Option.all_some, PatchRule.copies, PatchRule.copies, Instruction.standing_ordered]
    cases ix.standing rule.append <;> rfl

theorem copies_ordered_iff (t : PatchTable) (s : Schema) : t.Copies s.ordered ↔ t.Copies s := by
  have hinstructions : s.ordered.instructions = s.instructions.map Instruction.ordered := rfl
  constructor
  · rintro ⟨hschema, happend⟩
    rw [hinstructions, List.forall_mem_map] at happend
    exact ⟨s.copyDepth_ordered ▸ hschema, fun ix hix => t.copies_ordered ix ▸ happend ix hix⟩
  · rintro ⟨hschema, happend⟩
    refine ⟨s.copyDepth_ordered.symm ▸ hschema, ?_⟩
    rw [hinstructions, List.forall_mem_map]
    exact fun ix hix => (t.copies_ordered ix).symm ▸ happend ix hix

/-- Schemas that are the same up to order can both be copied, or neither can. -/
theorem copies_congr {s s' : Schema} (h : s.ordered = s'.ordered) : t.Copies s ↔ t.Copies s' := by
  rw [← copies_ordered_iff, h, copies_ordered_iff]

/-! ## Whole Patches -/

/-- Schemas that are the same up to order are both patched, with the same report, or both refused for the
same reason. -/
theorem patch_respelled (strict : Bool) (ht : t.conflict? = none) {s s' : Schema}
    (h : s.ordered = s'.ordered) :
    LiftRel Eq (fun x x' => x.1.ordered = x'.1.ordered ∧ x.2 = x'.2) (t.patch strict s).2
      (t.patch strict s').2 := by
  have hreport : t.reportOn s = t.reportOn s' := reportOn_congr ht h
  have hmissing : t.missingFrom s = t.missingFrom s' := congrArg Report.missing hreport
  -- a strict patch looks at what is missing before it copies anything
  by_cases hmet : strict = true → t.missingFrom s = []
  · by_cases hcopies : t.Copies s
    · rw [patch_of_copies ht hcopies hmet, patch_of_copies ht ((copies_congr h).mp hcopies) (hmissing ▸ hmet)]
      exact .ok ⟨patchedSchema_congr h, hreport⟩
    · rw [(patch_of_not_copies ht hcopies hmet).1,
        (patch_of_not_copies ht ((copies_congr h).not.mp hcopies) (hmissing ▸ hmet)).1]
      exact .error rfl
  · have hdrift := Classical.not_imp.mp hmet
    rw [patch_eq ht, if_pos hdrift, patch_eq ht, if_pos (hmissing ▸ hdrift), hmissing]
    exact .error rfl

/-- A type can be shown or not whatever the order of its members is. -/
theorem isPrintable_ordered_type (t : TypeRef) :
    (t.mapMembers Value.orderedMembers).isPrintable = t.isPrintable := by
  cases t with
  | named n => rfl
  | composite ms =>
    rw [TypeRef.isPrintable_eq, TypeRef.isPrintable_eq, TypeRef.mapMembers, TypeRef.toValue,
      TypeRef.toValue, ← Value.ordered_object_entries, Value.isPrintable_ordered]

/-- The notices of an instruction show its types in another order, and can be shown or not just as well. -/
theorem isPrintable_noticesOf_ordered (t : PatchTable) (ix : Instruction) :
    (t.noticesOf ix.ordered).map Notice.isPrintable = (t.noticesOf ix).map Notice.isPrintable := by
  have hname : ix.ordered.name = ix.name := rfl
  rw [noticesOf, noticesOf, hname]
  cases t.rule? ix.name with
  | none => rfl
  | some rule =>
    dsimp only
    rw [PatchRule.apply, PatchRule.apply, Instruction.standing_ordered]
    -- only a conflict is recorded, with the type that was found
    cases ix.standing rule.append with
    | lacking => rfl
    | present => rfl
    | conflicting found =>
      dsimp only [Standing.ordered]
      rw [List.map_singleton, List.map_singleton, Notice.isPrintable, Notice.isPrintable, Argument.rebuild,
        isPrintable_ordered_type]

/-- What is said about instructions can be said or not, whatever the order of members is. -/
theorem isPrintable_applyAll_ordered (ht : t.conflict? = none) (ixs : List Instruction) :
    (t.applyAll (ixs.map Instruction.ordered)).1.map Notice.isPrintable =
      (t.applyAll ixs).1.map Notice.isPrintable := by
  rw [applyAll_eq ht, applyAll_eq ht, List.takeWhile_map, List.flatMap_map, List.map_flatMap,
    List.map_flatMap]
  have hcopies : t.copies ∘ Instruction.ordered = t.copies := funext t.copies_ordered
  rw [hcopies]
  simp only [isPrintable_noticesOf_ordered]

/-- The same holds of all notices of a patch. -/
theorem isPrintable_apply_ordered (ht : t.conflict? = none) (s : Schema) :
    (t.apply s.ordered).1.map Notice.isPrintable = (t.apply s).1.map Notice.isPrintable := by
  rw [apply, apply, Schema.copyDepth_ordered]
  split
  · exact isPrintable_applyAll_ordered ht s.instructions
  · rfl

/-- **Of what is said of two schemas that are the same up to order, the same can be shown.** -/
theorem isPrintable_notices_congr (strict : Bool) (ht : t.conflict? = none) {s s' : Schema}
    (h : s.ordered = s'.ordered) :
    (t.patch strict s).1.map Notice.isPrintable = (t.patch strict s').1.map Notice.isPrintable := by
  have hreport : t.reportOn s = t.reportOn s' := reportOn_congr ht h
  have hmissing : t.missingFrom s = t.missingFrom s' := congrArg Report.missing hreport
  have hwarnings : t.warnings s = t.warnings s' := by
    have hunknown : t.unknownTypes s = t.unknownTypes s' := congrArg Report.unknownTypes hreport
    rw [warnings, warnings, hmissing, hunknown]
  have hnotices : (t.apply s).1.map Notice.isPrintable = (t.apply s').1.map Notice.isPrintable := by
    rw [← isPrintable_apply_ordered ht s, h, isPrintable_apply_ordered ht]
  have hcopies := exists_apply_iff (s := s) ht |>.trans (copies_congr h) |>.trans
    (exists_apply_iff (s := s') ht).symm
  rw [patch_eq ht, patch_eq ht, hmissing, hwarnings, hreport]
  split
  · rfl
  -- both patches are made, or neither is
  rcases happly : t.apply s with ⟨notices, f | x⟩ <;> rcases happly' : t.apply s' with ⟨notices', f' | x'⟩ <;>
    rw [happly, happly'] at hnotices hcopies
  · simpa using hnotices
  · simp at hcopies
  · simp at hcopies
  · simpa using hnotices

end PatchTable

end SchemaGraft
