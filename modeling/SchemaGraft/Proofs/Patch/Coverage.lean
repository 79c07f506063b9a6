import Mathlib.Data.List.TakeWhile
import SchemaGraft.Patch.Apply
import SchemaGraft.Proofs.Outcome
import SchemaGraft.Proofs.Patch.Table

/-!
# What a Patch Does and What a Report Says

Patching goes through the instructions one by one, and so does reporting.  Both are brought into a form in
which what happens to an instruction is a function of how it stands to the rule that matches it.

## Architecture

- **Standing**: `PatchTable.standing?` of an instruction.
- **Reports**: `PatchTable.coverage_eq`; every list of a report is the names of the instructions of one
  standing.
- **Patches**: `PatchTable.apply_eq`; `PatchTable.patched` is what becomes of an instruction and
  `PatchTable.noticesOf` what is said about it, as long as `PatchTable.Copies` holds: what has to be copied can
  be copied.
- **Both**: `PatchTable.standing?_patched`, how a patched instruction stands.
-/

namespace SchemaGraft

/-! ## Standing -/

namespace Standing

/-- Does the instruction lack the argument? -/
def isLacking : Standing → Bool
  | .lacking => true
  | _ => false

/-- Does the instruction have the argument? -/
def isPresent : Standing → Bool
  | .present => true
  | _ => false

/-- Does the instruction have another argument of the name? -/
def isConflicting : Standing → Bool
  | .conflicting _ => true
  | _ => false

end Standing

/-- An instruction lacks an argument when no argument has its name. -/
theorem Instruction.standing_isLacking_iff (ix : Instruction) (wanted : Argument) :
    (ix.standing wanted).isLacking = true ↔ wanted.name ∉ ix.arguments.map (·.name) := by
  rw [standing, List.mem_map]
  -- an instruction lacks the argument if no argument bears its name, whatever their types
  cases h : ix.arguments.find? (·.name == wanted.name) with
  | none =>
    rw [List.find?_eq_none] at h
    simp only [Standing.isLacking, true_iff]
    rintro ⟨a, ha, hname⟩
    exact h a ha (beq_iff_eq.mpr hname)
  | some found =>
    have hfound := List.find?_some h
    have hmem := List.mem_of_find?_eq_some h
    dsimp only
    split
    all_goals
      simp only [Standing.isLacking, Bool.false_eq_true, false_iff, not_not]
      exact ⟨found, hmem, beq_iff_eq.mp hfound⟩

namespace PatchTable

/-- How an instruction stands to the argument of the rule that matches it, if one does. -/
def standing? (t : PatchTable) (ix : Instruction) : Option Standing :=
  (t.rule? ix.name).map fun r => ix.standing r.append

/-! ## Reports -/

/-- The names of the instructions with a standing of the given kind. -/
def namesOf (t : PatchTable) (kind : Standing → Bool) (ixs : List Instruction) : List Text :=
  (ixs.filter fun ix => (t.standing? ix).any kind).map (·.name)

/-- The names of a kind are listed in the order of the instructions. -/
theorem namesOf_cons (t : PatchTable) (kind : Standing → Bool) (ix : Instruction)
    (ixs : List Instruction) :
    t.namesOf kind (ix :: ixs) =
      if (t.standing? ix).any kind then ix.name :: t.namesOf kind ixs else t.namesOf kind ixs := by
  rw [namesOf, List.filter_cons]
  split <;> rfl

/-- The report lists the instructions as they stand. -/
theorem ofInstructions_eq {t : PatchTable} (ht : t.conflict? = none) (r : Report)
    (ixs : List Instruction) :
    Report.ofInstructions t r ixs = .ok { r with
      patched := t.namesOf Standing.isLacking ixs ++ r.patched
      alreadyPresent := t.namesOf Standing.isPresent ixs ++ r.alreadyPresent
      conflicting := t.namesOf Standing.isConflicting ixs ++ r.conflicting } := by
  induction ixs with
  | nil => rfl
  | cons ix rest ih =>
    rw [Report.ofInstructions, ruleFor_eq ht, ih]
    -- an instruction that no rule matches is not listed
    rcases Option.eq_none_or_eq_some (t.rule? ix.name) with hrule | ⟨rule, hrule⟩
    · simp [namesOf_cons, standing?, hrule, Except.pure_eq_ok]
    · cases h : ix.standing rule.append <;>
        simp [namesOf_cons, standing?, hrule, Except.pure_eq_ok, Report.add, h,
          Standing.isLacking, Standing.isPresent, Standing.isConflicting]

/-- **A report lists the instructions by their standing.** -/
theorem coverage_eq {t : PatchTable} (ht : t.conflict? = none) (s : Schema) :
    t.coverage s = .ok {
      tableVersion := t.version
      patched := t.namesOf Standing.isLacking s.instructions
      alreadyPresent := t.namesOf Standing.isPresent s.instructions
      conflicting := t.namesOf Standing.isConflicting s.instructions
      missing := t.missingFrom s
      unknownTypes := t.unknownTypes s } := by
  rw [coverage, ofInstructions_eq ht]
  simp

/-- The names of a kind are some of the names of the schema, in their order. -/
theorem namesOf_sublist (t : PatchTable) (kind : Standing → Bool) (s : Schema) :
    (t.namesOf kind s.instructions).Sublist s.instructionNames :=
  List.filter_sublist.map _

/-- What becomes of an instruction. -/
def patched (t : PatchTable) (ix : Instruction) : Instruction :=
  match t.rule? ix.name with
  | none => ix
  | some rule => (rule.apply ix).1

/-- What there is to note about an instruction. -/
def noticesOf (t : PatchTable) (ix : Instruction) : List Notice :=
  match t.rule? ix.name with
  | none => []
  | some rule => (rule.apply ix).2

/-- The patched schema. -/
def patchedSchema (t : PatchTable) (s : Schema) : Schema :=
  { s with instructions := s.instructions.map t.patched }

/-- Can a patch of the instruction copy what it needs? -/
def copies (t : PatchTable) (ix : Instruction) : Bool :=
  (t.rule? ix.name).all (·.copies ix)

/-- Everything that a patch of the schema has to copy can be copied. -/
structure Copies (t : PatchTable) (s : Schema) : Prop where
  /-- The schema is not nested too deeply. -/
  schema : s.copyDepth ≤ maxCopyDepth
  /-- Neither is an argument that some instruction lacks. -/
  append : ∀ ix ∈ s.instructions, t.copies ix = true

section

variable {t : PatchTable} (ht : t.conflict? = none)

include ht

/-- Applying a table to an instruction fails only if something cannot be copied. -/
theorem applyTo_eq (ix : Instruction) :
    t.applyTo ix = if t.copies ix then .ok (t.patched ix, t.noticesOf ix) else .error .tooDeep := by
  rw [applyTo, ruleFor_eq ht, copies, patched, noticesOf]
  cases t.rule? ix.name <;> rfl

/-- Instructions are patched up to the first one that needs what cannot be copied. -/
theorem applyAll_eq (ixs : List Instruction) :
    t.applyAll ixs = ((ixs.takeWhile t.copies).flatMap t.noticesOf,
      if ixs.all t.copies then .ok (ixs.map t.patched) else .error .tooDeep) := by
  induction ixs with
  | nil => rfl
  | cons ix rest ih =>
    rw [applyAll, applyTo_eq ht, ih, List.takeWhile_cons, List.all_cons]
    cases t.copies ix with
    | false => rfl
    | true =>
      simp only [if_true, Bool.true_and, List.flatMap_cons, List.map_cons]
      cases rest.all t.copies <;> rfl

/-- **A patch succeeds, instruction by instruction**, if all can be copied that has to be. -/
theorem apply_eq {s : Schema} (h : t.Copies s) :
    t.apply s = (s.instructions.flatMap t.noticesOf, .ok (t.patchedSchema s)) := by
  have hall : s.instructions.all t.copies = true := List.all_eq_true.mpr h.append
  rw [apply, if_pos h.schema, applyAll_eq ht, List.takeWhile_eq_self_iff.mpr h.append, if_pos hall]
  rfl

/-- Otherwise it fails for that reason, and for no other. -/
theorem apply_eq_tooDeep {s : Schema} (h : ¬t.Copies s) : (t.apply s).2 = .error .tooDeep := by
  rw [apply]
  split
  · next hschema =>
    have hsome : ¬s.instructions.all t.copies = true := fun hall =>
      h ⟨hschema, List.all_eq_true.mp hall⟩
    rw [applyAll_eq ht, if_neg hsome]
    rfl
  · rfl

/-- A patch succeeds if all that it has to copy can be copied. -/
theorem snd_apply_eq_ok_iff {s s' : Schema} :
    (t.apply s).2 = .ok s' ↔ t.Copies s ∧ t.patchedSchema s = s' := by
  by_cases h : t.Copies s
  · simp [apply_eq ht h, h]
  · simp [apply_eq_tooDeep ht h, h]

theorem apply_eq_ok_iff {s s' : Schema} {notices : List Notice} :
    t.apply s = (notices, .ok s') ↔
      t.Copies s ∧ s.instructions.flatMap t.noticesOf = notices ∧ t.patchedSchema s = s' := by
  constructor
  · intro h
    obtain ⟨hcopies, hpatched⟩ := (snd_apply_eq_ok_iff ht).mp (congrArg Prod.snd h)
    rw [apply_eq ht hcopies] at h
    exact ⟨hcopies, congrArg Prod.fst h, hpatched⟩
  · rintro ⟨hcopies, rfl, rfl⟩
    exact apply_eq ht hcopies

/-- There is a patched schema exactly when all can be copied that has to be. -/
theorem exists_apply_iff {s : Schema} : (∃ notices s', t.apply s = (notices, .ok s')) ↔ t.Copies s := by
  constructor
  · rintro ⟨notices, s', h⟩
    exact ((apply_eq_ok_iff ht).mp h).1
  · intro h
    exact ⟨_, _, apply_eq ht h⟩

/-- A patch that fails has said nothing that one that succeeds would not say. -/
theorem notices_apply_prefix (s : Schema) :
    (t.apply s).1 <+: s.instructions.flatMap t.noticesOf := by
  rw [apply]
  split
  · rw [applyAll_eq ht]
    obtain ⟨rest, hrest⟩ := s.instructions.takeWhile_prefix t.copies
    exact ⟨rest.flatMap t.noticesOf, by rw [← List.flatMap_append, hrest]⟩
  · exact List.nil_prefix

end

/-! ## Both -/

section

variable {t : PatchTable} {ix : Instruction}

/-- Patching keeps the name. -/
theorem name_patched (t : PatchTable) (ix : Instruction) : (t.patched ix).name = ix.name := by
  rw [patched]
  split
  · rfl
  · next rule _ =>
    rw [PatchRule.apply]
    split <;> rfl

/-- An instruction that lacks its argument gets it. -/
theorem patched_of_lacking {rule : PatchRule} (hrule : t.rule? ix.name = some rule)
    (h : (ix.standing rule.append).isLacking = true) : t.patched ix = ix.push rule.append := by
  rw [patched, hrule]
  dsimp only
  rw [PatchRule.apply]
  split
  · rfl
  all_goals simp_all [Standing.isLacking]

/-- Every other instruction is left as it is. -/
theorem patched_of_not_lacking (h : (t.standing? ix).any Standing.isLacking = false) :
    t.patched ix = ix := by
  rw [patched]
  rw [standing?] at h
  split
  · rfl
  · next rule hrule =>
    rw [PatchRule.apply]
    split
    · next hlacking => simp [hrule, hlacking, Standing.isLacking] at h
    all_goals rfl

theorem arguments_push (ix : Instruction) (a : Argument) :
    (ix.push a).arguments = ix.arguments ++ [a] := rfl

/-- An instruction lacks an argument if a rule matches it and it does not have what the rule appends. -/
theorem any_isLacking_iff :
    (t.standing? ix).any Standing.isLacking = true ↔
      ∃ rule, t.rule? ix.name = some rule ∧ (ix.standing rule.append).isLacking = true := by
  rw [standing?]
  cases t.rule? ix.name <;> simp

end

/-- A patch keeps all names. -/
@[simp] theorem instructionNames_patchedSchema (t : PatchTable) (s : Schema) :
    (t.patchedSchema s).instructionNames = s.instructionNames := by
  rw [Schema.instructionNames, patchedSchema, List.map_map]
  exact List.map_congr_left fun ix _ => name_patched t ix

/-- So the same names are missing. -/
theorem missingFrom_patchedSchema (t : PatchTable) (s : Schema) :
    t.missingFrom (t.patchedSchema s) = t.missingFrom s := by
  rw [missingFrom, missingFrom, instructionNames_patchedSchema]

end PatchTable

end SchemaGraft
