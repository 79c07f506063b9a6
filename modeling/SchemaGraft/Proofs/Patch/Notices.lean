import SchemaGraft.Proofs.Patch.Copying
import SchemaGraft.Proofs.Patch.Stability
import SchemaGraft.Proofs.Value.Display

/-!
# What a Patch Says

A patch notes what it comes across, and in the end what it has done.  A notice that shows two types of an
argument can only be logged if both can be shown, as all types of documents can.

## Architecture

- **Whole patches**: `PatchTable.patch_eq` with `PatchTable.notices` and `PatchTable.reportOn`; which patches
  succeed is said by `PatchTable.patch_eq_ok_iff`.
- **Types of documents**: `TypeRef.Documented`, by `Schema.documented_of_check`.
- **Notices that can be shown**: `PatchTable.Shows`.
- **Again**: `PatchTable.Shows.again`; what has been said once can be said of the patched schema.
-/

namespace SchemaGraft

/-! ## Whole Patches -/

namespace PatchTable

variable {t : PatchTable} {strict : Bool} {s s' : Schema} {r : Report}

/-- The report on a schema. -/
def reportOn (t : PatchTable) (s : Schema) : Report where
  tableVersion := t.version
  patched := t.namesOf Standing.isLacking s.instructions
  alreadyPresent := t.namesOf Standing.isPresent s.instructions
  conflicting := t.namesOf Standing.isConflicting s.instructions
  missing := t.missingFrom s
  unknownTypes := t.unknownTypes s

theorem coverage_eq_reportOn (ht : t.conflict? = none) (s : Schema) :
    t.coverage s = .ok (t.reportOn s) :=
  coverage_eq ht s

/-- What is noted before the instructions are looked at. -/
def warnings (t : PatchTable) (s : Schema) : List Notice :=
  (t.missingFrom s).map (.missingInstruction t.version) ++ (t.unknownTypes s).map (.unknownType t.version)

/-- All notices of a patch that is made. -/
def notices (t : PatchTable) (s : Schema) : List Notice :=
  t.warnings s ++ s.instructions.flatMap t.noticesOf ++
    [.patched t.version (t.reportOn s).patched.length (t.reportOn s).alreadyPresent.length]

/-- **A patch in either mode**: a strict one is refused, before anything is noted, when something is
missing. -/
theorem patch_eq (ht : t.conflict? = none) (strict : Bool) (s : Schema) :
    t.patch strict s =
      if strict = true ∧ t.missingFrom s ≠ [] then ([], .error (.drift (t.missingFrom s)))
      else match t.apply s with
        | (notices, .error f) => (t.warnings s ++ notices, .error (.refused f))
        | (notices, .ok s') => (t.warnings s ++ notices ++
            [.patched t.version (t.reportOn s).patched.length (t.reportOn s).alreadyPresent.length],
          .ok (s', t.reportOn s)) := by
  rw [patch, coverage_eq_reportOn ht]
  dsimp only
  rcases t.apply s with ⟨notices, f | s'⟩ <;> cases hmissing : t.missingFrom s <;> cases strict <;>
    simp [warnings, reportOn, hmissing]

/-- A patch that can copy what it has to succeeds unless it is strict and something is missing. -/
theorem patch_of_copies (ht : t.conflict? = none) (hcopies : t.Copies s)
    (h : strict = true → t.missingFrom s = []) :
    t.patch strict s = (t.notices s, .ok (t.patchedSchema s, t.reportOn s)) := by
  rw [patch_eq ht, if_neg (fun hdrift => hdrift.2 (h hdrift.1)), apply_eq ht hcopies]
  rfl

/-- A patch that cannot is refused for that, unless it is strict and something is missing; its notices are
the first of those of a patch that is made. -/
theorem patch_of_not_copies (ht : t.conflict? = none) (hcopies : ¬t.Copies s)
    (h : strict = true → t.missingFrom s = []) :
    (t.patch strict s).2 = .error (.refused .tooDeep) ∧ (t.patch strict s).1 <+: t.notices s := by
  have hfault := apply_eq_tooDeep ht hcopies
  -- the records made up to the copy that fails are the first ones of a whole patch
  have hprefix := notices_apply_prefix ht s
  rw [patch_eq ht, if_neg (fun hdrift => hdrift.2 (h hdrift.1))]
  rcases happly : t.apply s with ⟨notices, f | s'⟩
  · rw [happly] at hfault hprefix
    cases hfault
    refine ⟨rfl, ?_⟩
    rw [PatchTable.notices, List.append_assoc, List.prefix_append_right_inj]
    exact hprefix.trans (List.prefix_append ..)
  · rw [happly] at hfault
    cases hfault

/-- A patch succeeds unless it is strict and something is missing, or something cannot be copied. -/
theorem patch_eq_ok_iff (ht : t.conflict? = none) :
    (t.patch strict s).2 = .ok (s', r) ↔
      t.coverage s = .ok r ∧ (strict = true → t.missingFrom s = []) ∧ t.Copies s ∧
        t.patchedSchema s = s' := by
  rw [coverage_eq_reportOn ht]
  by_cases hmet : strict = true → t.missingFrom s = []
  · by_cases hcopies : t.Copies s
    · simp only [patch_of_copies ht hcopies hmet, Except.ok.injEq, Prod.mk.injEq, hcopies, true_and]
      exact ⟨fun h => ⟨h.2, hmet, h.1⟩, fun h => ⟨h.2.2, h.1⟩⟩
    · simp [(patch_of_not_copies ht hcopies hmet).1, hcopies]
  · rw [patch_eq ht, if_pos (Classical.not_imp.mp hmet)]
    simp [hmet]

theorem notices_of_patch_eq_ok (ht : t.conflict? = none) (h : (t.patch strict s).2 = .ok (s', r)) :
    (t.patch strict s).1 = t.notices s := by
  obtain ⟨-, hmet, hcopies, -⟩ := (patch_eq_ok_iff ht).mp h
  rw [patch_of_copies ht hcopies hmet]

end PatchTable

/-! ## Types of Documents -/

namespace TypeRef

variable {t t' : TypeRef}

/-- The type is a value of a document. -/
def Documented (t : TypeRef) : Prop :=
  ∃ u : Json, u.Proper ∧ u.Moderate ∧ t.toValue = .ofJson u

theorem isPrintable_eq (t : TypeRef) : t.isPrintable = t.toValue.isPrintable := by
  cases t <;> rfl

theorem toValue_of_check {u : Json} (hu : u.Proper) (h : check (.ofJson u) = .ok t) :
    t.toValue = .ofJson u := by
  rcases Format.typeRef_read_iff.mp h with ⟨n, rfl, rfl⟩ | ⟨xs, hxs, rfl⟩
  · rfl
  · obtain ⟨ms, rfl, rfl⟩ := (Format.dictionary_proper hu).mp hxs
    rw [toValue, Value.ofJson_object]

theorem Documented.isPrintable (h : t.Documented) : t.isPrintable = true := by
  obtain ⟨u, -, hmoderate, hu⟩ := h
  rw [isPrintable_eq, hu]
  exact Value.isPrintable_ofJson hmoderate

/-- A type of a table that is the same as one of a document can be shown. -/
theorem Documented.isPrintable_of_same (h : t.Documented) (hsame : t.same t' = true) :
    t'.isPrintable = true := by
  obtain ⟨u, hproper, hmoderate, hu⟩ := h
  rw [same, hu] at hsame
  rw [isPrintable_eq]
  exact Value.isPrintable_of_same hproper hmoderate hsame

end TypeRef

theorem Argument.documented_of_check {v : Json} {a : Argument} (hproper : v.Proper)
    (hmoderate : v.Moderate) (h : Argument.check (.ofJson v) = .ok a) : a.type.Documented := by
  rw [← Format.read_argument, Format.argument, Format.read_record_iff] at h
  obtain ⟨ms, rfl, -, h⟩ := h
  obtain ⟨-, h⟩ := Part.readJson_pair_iff.mp h
  obtain ⟨htype, -⟩ := Part.readJson_pair_iff.mp h
  obtain ⟨hnone, hnot⟩ | ⟨u, type, hu, hread, htype⟩ :=
    Part.readJson_possible_iff.mp (Part.readJson_required_iff.mp htype)
  · cases hnot
  · cases htype
    exact ⟨u, hproper.lookup hu, hmoderate.lookup hu, TypeRef.toValue_of_check (hproper.lookup hu) hread⟩

theorem Instruction.documented_of_check {v : Json} {ix : Instruction} (hproper : v.Proper)
    (hmoderate : v.Moderate) (h : Instruction.check (.ofJson v) = .ok ix) :
    ∀ a ∈ ix.arguments, a.type.Documented := by
  rw [← Format.read_instruction, Format.instruction, Format.read_record_iff] at h
  obtain ⟨ms, rfl, -, h⟩ := h
  obtain ⟨-, h⟩ := Part.readJson_pair_iff.mp h
  obtain ⟨hargs, -⟩ := Part.readJson_pair_iff.mp h
  rw [arguments]
  -- without `args` there are no arguments
  obtain ⟨-, hix⟩ | ⟨u, as, hu, hread, hix⟩ := Part.readJson_possible_iff.mp hargs
  · replace hix : ix.args = none := hix
    simp [hix]
  · replace hix : ix.args = some as := hix
    obtain ⟨items, rfl, hitems⟩ := Check.list_eq_ok_iff.mp hread
    rw [hix]
    intro a ha
    obtain ⟨v, hv, hcheck⟩ := hitems.exists_of_mem_right ha
    exact Argument.documented_of_check (Json.everywhere_list.mp (hproper.lookup hu) v hv)
      (Json.everywhere_list.mp (hmoderate.lookup hu) v hv) hcheck

/-- The types of the arguments of a schema that was read are values of its document. -/
theorem Schema.documented_of_check {raw : Json} {s : Schema} (hproper : raw.Proper)
    (hmoderate : raw.Moderate) (h : Schema.check (.ofJson raw) = .ok s) :
    ∀ ix ∈ s.instructions, ∀ a ∈ ix.arguments, a.type.Documented := by
  rw [← Format.read_schema, Format.schema, Format.read_record_iff] at h
  obtain ⟨ms, rfl, -, h⟩ := h
  simp only [Part.readJson_pair_iff, Part.readJson_required_iff, Part.readJson_possible_iff] at h
  obtain ⟨-, -, ⟨-, h⟩ | ⟨u, ixs, hu, hread, hixs⟩, -⟩ := h
  · cases h
  · cases hixs
    -- the rule about equal names is checked on top of the list
    obtain ⟨hlist, -⟩ := Format.checkInstructions_eq_ok_iff.mp hread
    obtain ⟨items, rfl, hitems⟩ := Check.list_eq_ok_iff.mp hlist
    intro ix hix
    obtain ⟨v, hv, hcheck⟩ := hitems.exists_of_mem_right hix
    exact Instruction.documented_of_check (Json.everywhere_list.mp (hproper.lookup hu) v hv)
      (Json.everywhere_list.mp (hmoderate.lookup hu) v hv) hcheck

theorem Schema.documented_of_ofBytes {source : Text} {content : Bytes} {s : Schema}
    (h : Schema.ofBytes source content = .ok s) :
    ∀ ix ∈ s.instructions, ∀ a ∈ ix.arguments, a.type.Documented := by
  obtain ⟨raw, hraw, hcheck⟩ := ofBytes_eq_ok_iff.mp h
  exact documented_of_check (Json.proper_of_ofBytes hraw) (Json.moderate_of_ofBytes hraw) hcheck

/-! ## Notices That Can Be Shown -/

namespace PatchTable

variable {t : PatchTable} {s s' : Schema} {ix : Instruction} {rule : PatchRule}

theorem mem_noticesOf_iff {n : Notice} :
    n ∈ t.noticesOf ix ↔ ∃ rule found, t.rule? ix.name = some rule ∧
      ix.standing rule.append = .conflicting found ∧
      .leftUnchanged ix.name found.name found.type rule.append.type = n := by
  rw [noticesOf]
  cases t.rule? ix.name with
  | none => simp
  | some rule =>
    dsimp only
    rw [PatchRule.apply]
    cases h : ix.standing rule.append <;> simp [h, eq_comm]

/-- All that a patch of the schema notes can be shown. -/
def Shows (t : PatchTable) (s : Schema) : Prop :=
  ∀ n ∈ t.notices s, n.isPrintable = true

/-- It depends on the types that are in conflict. -/
theorem shows_iff :
    t.Shows s ↔ ∀ ix ∈ s.instructions, ∀ rule found, t.rule? ix.name = some rule →
      ix.standing rule.append = .conflicting found →
      found.type.isPrintable = true ∧ rule.append.type.isPrintable = true := by
  -- only the records of conflicts hold anything that may not be printable
  have hwarnings : ∀ n ∈ t.warnings s, n.isPrintable = true := by
    rw [warnings, List.forall_mem_append, List.forall_mem_map, List.forall_mem_map]
    exact ⟨fun _ _ => rfl, fun _ _ => rfl⟩
  rw [Shows, notices, List.forall_mem_append, List.forall_mem_append]
  constructor
  · rintro ⟨⟨-, h⟩, -⟩ ix hix rule found hrule hstanding
    have hnotice := h _ (List.mem_flatMap_of_mem hix
      (mem_noticesOf_iff.mpr ⟨rule, found, hrule, hstanding, rfl⟩))
    rwa [Notice.isPrintable, Bool.and_eq_true] at hnotice
  · intro h
    refine ⟨⟨hwarnings, fun n hn => ?_⟩, List.forall_mem_singleton.mpr rfl⟩
    obtain ⟨ix, hix, hn⟩ := List.mem_flatMap.mp hn
    obtain ⟨rule, found, hrule, hstanding, rfl⟩ := mem_noticesOf_iff.mp hn
    rw [Notice.isPrintable, Bool.and_eq_true]
    exact h ix hix rule found hrule hstanding

/-- The argument that stands in conflict is one of those of the instruction. -/
theorem mem_arguments_of_standing {a found : Argument} (h : ix.standing a = .conflicting found) :
    found ∈ ix.arguments := by
  rw [Instruction.standing] at h
  split at h
  · cases h
  · next hfound =>
    split at h
    · cases h
    · cases h
      exact List.mem_of_find?_eq_some hfound

/-- For a document only the types of the table matter. -/
theorem shows_of_documented (hs : ∀ ix ∈ s.instructions, ∀ a ∈ ix.arguments, a.type.Documented)
    (h : ∀ ix ∈ s.instructions, ∀ rule, t.rule? ix.name = some rule →
      rule.append.type.isPrintable = true) : t.Shows s := by
  rw [shows_iff]
  intro ix hix rule found hrule hstanding
  exact ⟨(hs ix hix found (mem_arguments_of_standing hstanding)).isPrintable, h ix hix rule hrule⟩

/-! ## Again -/

/-- An argument that an instruction has been patched with, or has been compared with, can be shown: it was
written, it is the same as one of the document, or it was shown. -/
theorem isPrintable_append {j : Json} (hplain : (t.patchedSchema s).plain = .ok j) (hshows : t.Shows s)
    (hs : ∀ ix ∈ s.instructions, ∀ a ∈ ix.arguments, a.type.Documented) (hix : ix ∈ s.instructions)
    (hrule : t.rule? ix.name = some rule) : rule.append.type.isPrintable = true := by
  -- the argument is written with the schema, or equals one that was read, or is shown in a record
  cases hstanding : ix.standing rule.append with
  | lacking =>
    have hlacking : (ix.standing rule.append).isLacking = true := by rw [hstanding]; rfl
    obtain ⟨j, hj⟩ := Schema.exists_plain_of_plain hplain (t.patched ix) (List.mem_map_of_mem hix)
    rw [patched_of_lacking hrule hlacking] at hj
    obtain ⟨j, hj⟩ := Instruction.exists_plain_of_plain hj rule.append (by simp [arguments_push])
    simp only [Argument.plain, Except.bind_eq_ok_iff] at hj
    obtain ⟨form, htype, -⟩ := hj
    exact TypeRef.isPrintable_of_plain htype
  | present =>
    rw [Instruction.standing] at hstanding
    split at hstanding
    · cases hstanding
    · next found hfound =>
      split at hstanding
      · next hsame => exact (hs ix hix found (List.mem_of_find?_eq_some hfound)).isPrintable_of_same hsame
      · cases hstanding
  | conflicting found => exact (shows_iff.mp hshows ix hix rule found hrule hstanding).2

/-- **What has been noted can be noted again**: if a schema of a document has been patched and written, all
notices on what comes back can be shown. -/
theorem Shows.again {j : Json} (hshows : t.Shows s) (hplain : (t.patchedSchema s).plain = .ok j)
    (hs : ∀ ix ∈ s.instructions, ∀ a ∈ ix.arguments, a.type.Documented)
    (hs' : ∀ ix ∈ s'.instructions, ∀ a ∈ ix.arguments, a.type.Documented)
    (hnames : s'.instructionNames = s.instructionNames) : t.Shows s' := by
  refine shows_of_documented hs' fun ix' hix' rule hrule => ?_
  have hmem : ix'.name ∈ s.instructionNames := hnames ▸ List.mem_map_of_mem hix'
  obtain ⟨ix, hix, hname⟩ := List.mem_map.mp hmem
  rw [← hname] at hrule
  exact isPrintable_append hplain hshows hs hix hrule

end PatchTable

end SchemaGraft
