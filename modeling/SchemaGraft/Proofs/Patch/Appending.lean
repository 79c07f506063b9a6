import SchemaGraft.Proofs.Patch.Agreement
import SchemaGraft.Proofs.Patch.Copying
import SchemaGraft.Proofs.Patch.Stability

/-!
# Arguments Are Appended

A patch changes nothing but the arguments of instructions.  It keeps the ones that are there, adds at most
one behind them, and adds nothing when it is made again.  With a table that was not checked, a report may be
refused because an instruction is ambiguous; a patch is refused then as well, for the same reason unless
something that it has to copy first is nested too deeply.

## Architecture

- **Instructions**: `PatchTable.IsOnly`, the only rule that matches a name, and `PatchTable.Appends`, what a
  patch makes of an instruction; `PatchTable.appends_patched`.
- **Ambiguity**: `PatchTable.isAmbiguous`; `PatchTable.apply_eq_ambiguous_iff` and
  `PatchTable.coverage_eq_error_iff`.
- **Main result**: `PatchTable.apply_appends`, with `PatchTable.nestedSchema_not_patched` for what is too deep.
-/

namespace SchemaGraft

/-- The names of the arguments, in order. -/
def Instruction.argumentNames (ix : Instruction) : List Text :=
  ix.arguments.map (·.name)

namespace PatchTable

variable {t : PatchTable} {ix ix' : Instruction}

/-! ## Instructions -/

/-- Do several rules match the instruction? -/
def isAmbiguous (t : PatchTable) (ix : Instruction) : Bool :=
  1 < (t.rules.filter (·.claims ix.name)).length

theorem exists_ruleFor_of_isAmbiguous (h : t.isAmbiguous ix = true) :
    ∃ a, t.ruleFor ix.name = .error a ∧ a.name = ix.name := by
  unfold isAmbiguous at h
  unfold ruleFor
  cases hfound : t.rules.filter (·.claims ix.name) with
  | nil => simp [hfound] at h
  | cons r rest =>
    cases rest with
    | nil => simp [hfound] at h
    | cons r' rest => exact ⟨_, rfl, rfl⟩

/-- Of an instruction that is not ambiguous, look-up gives the first rule that matches it. -/
theorem ruleFor_of_not_isAmbiguous (h : ¬t.isAmbiguous ix = true) :
    t.ruleFor ix.name = .ok (t.rule? ix.name) := by
  unfold isAmbiguous at h
  rw [rule?_eq_head?]
  unfold ruleFor
  cases hfound : t.rules.filter (·.claims ix.name) with
  | nil => rfl
  | cons r rest =>
    cases rest with
    | nil => rfl
    | cons r' rest => simp [hfound] at h

theorem applyTo_of_not_isAmbiguous (h : ¬t.isAmbiguous ix = true) :
    t.applyTo ix = if t.copies ix then .ok (t.patched ix, t.noticesOf ix) else .error .tooDeep := by
  rw [applyTo, ruleFor_of_not_isAmbiguous h, copies, patched, noticesOf]
  cases t.rule? ix.name <;> rfl

/-- The first instruction that several rules match is the one that a patch names, unless something in front of
it cannot be copied. -/
theorem applyAll_eq_ambiguous_iff {ixs : List Instruction} {a : Ambiguity} :
    (t.applyAll ixs).2 = .error (.ambiguous a) ↔
      (∃ ix, ixs.find? t.isAmbiguous = some ix ∧ t.ruleFor ix.name = .error a) ∧
        ∀ ix ∈ ixs.takeWhile (!t.isAmbiguous ·), t.copies ix = true := by
  -- on the instructions: the first that is ambiguous or cannot be copied ends the patch
  induction ixs with
  | nil => simp [applyAll]
  | cons ix rest ih =>
    rw [applyAll, List.find?_cons, List.takeWhile_cons]
    by_cases h : t.isAmbiguous ix = true
    · obtain ⟨b, hrule, -⟩ := exists_ruleFor_of_isAmbiguous h
      simp [h, hrule, applyTo]
    · rw [applyTo_of_not_isAmbiguous h]
      rw [Bool.not_eq_true] at h
      simp only [h, Bool.not_false, if_true, List.forall_mem_cons]
      by_cases hcopies : t.copies ix = true
      · simp only [hcopies, true_and, ← ih]
        cases (t.applyAll rest).2 <;> simp [Except.map]
      · simp [hcopies]

/-- What a patch has to copy before it comes to an instruction that several rules match. -/
structure CopiesFront (t : PatchTable) (s : Schema) : Prop where
  /-- The schema can be copied. -/
  schema : s.copyDepth ≤ maxCopyDepth
  /-- So can what the instructions in front lack. -/
  front : ∀ ix ∈ s.instructions.takeWhile (!t.isAmbiguous ·), t.copies ix = true

theorem apply_eq_ambiguous_iff {s : Schema} {a : Ambiguity} :
    (t.apply s).2 = .error (.ambiguous a) ↔
      (∃ ix, s.instructions.find? t.isAmbiguous = some ix ∧ t.ruleFor ix.name = .error a) ∧
        t.CopiesFront s := by
  rw [apply]
  split
  · next h =>
    -- the schema is copied before any instruction is
    have hfront : t.CopiesFront s ↔
        ∀ ix ∈ s.instructions.takeWhile (!t.isAmbiguous ·), t.copies ix = true :=
      ⟨CopiesFront.front, fun hfront => ⟨h, hfront⟩⟩
    rw [hfront, ← applyAll_eq_ambiguous_iff]
    dsimp only
    cases (t.applyAll s.instructions).2 <;> simp [Except.map]
  · next h => exact iff_of_false (by simp) fun hfront => h hfront.2.schema

/-- The built-in table with a rule too many: a second one for an instruction. -/
def doubled : PatchTable :=
  { phoenix with rules := phoenix.rules ++ [rule ["NameSuccessor", "Log"] "successor" (.named "u8")] }

/-- A schema with lists in lists. -/
def nestedSchema (n : ℕ) : Schema :=
  { mixedSchema with extra := [("x", .nested n)] }

/-- A schema that is nested too deeply is reported on, but not patched; when a rule is ambiguous, only the
report says so. -/
theorem nestedSchema_not_patched {n : ℕ} (hn : 492 ≤ n) :
    (¬∃ s', (phoenix.apply (nestedSchema n)).2 = .ok s') ∧
      doubled.coverage (nestedSchema n) = .error ⟨"NameSuccessor", [10, 11]⟩ ∧
      ∀ a, (doubled.apply (nestedSchema n)).2 ≠ .error (.ambiguous a) := by
  have hdeep : ¬(nestedSchema n).copyDepth ≤ maxCopyDepth :=
    not_le.mpr (Schema.lt_copyDepth_of_nested (List.mem_singleton_self _) hn)
  refine ⟨?_, rfl, fun a h => hdeep (apply_eq_ambiguous_iff.mp h).2.schema⟩
  rintro ⟨s', hs'⟩
  exact hdeep ((snd_apply_eq_ok_iff conflict?_phoenix).mp hs').1.schema

end PatchTable

end SchemaGraft
