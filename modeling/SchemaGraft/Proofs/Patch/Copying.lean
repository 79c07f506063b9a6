import SchemaGraft.Proofs.Patch.Coverage
import SchemaGraft.Proofs.Value.Spelling

/-!
# What Can Be Written Can Be Copied

Copying and writing have limits of their own on how deeply a value may be nested.  The limit of writing is the
narrower one.  A patch whose outcome can be written is therefore not stopped by what it has to copy.

## Architecture

- **Depths**: `copyDepthOver_le_iff` takes the depth of a list or a mapping apart.
- **Values**: `Value.copyDepth_le_of_plainWithin`; the order of entries does not matter
  (`Value.copyDepth_ordered`).
- **Records**: `Argument.copyDepth_le_of_plain` and its like, up to `Schema.copyDepth_le_of_plain`.
- **Patches**: `PatchTable.Copies.of_patchedSchema` and `PatchTable.Copies.of_plain`.
-/

namespace SchemaGraft

/-! ## Depths -/

/-- A limit on a value with parts is a lower one on each of its parts. -/
theorem copyDepthOver_le_iff {parts : List ℕ} {n : ℕ} :
    copyDepthOver parts ≤ n ↔ 3 ≤ n ∧ ∀ d ∈ parts, 2 + d ≤ n := by
  rw [copyDepthOver]
  induction parts with
  | nil => simp
  | cons d rest ih =>
    rw [List.foldr_cons, List.forall_mem_cons, ← and_left_comm, ← ih]
    omega

/-- A record keeps to a limit when its fields and its members beyond them do. -/
theorem recordCopyDepth_le_iff {fields : List ℕ} {extra : List (Text × Value)} {n : ℕ} :
    recordCopyDepth fields extra ≤ n ↔
      copyDepthOver fields ≤ n ∧ (Value.object (TypeRef.entries extra)).copyDepth ≤ n :=
  max_le_iff

/-- A list keeps to a limit, two levels inside a record, when its items do, four levels inside the record. -/
theorem two_add_copyDepthOver_map_le_iff {α : Type} {depth : α → ℕ} {items : List α} {n : ℕ} :
    2 + copyDepthOver (items.map depth) ≤ n ↔ 5 ≤ n ∧ ∀ a ∈ items, 4 + depth a ≤ n := by
  -- subtraction on numbers truncates, so the bound has to be at least 2 before 2 is taken off it
  have hle : 2 + copyDepthOver (items.map depth) ≤ n ↔
      2 ≤ n ∧ copyDepthOver (items.map depth) ≤ n - 2 := by omega
  rw [hle, copyDepthOver_le_iff, List.forall_mem_map]
  constructor
  · rintro ⟨h, hthree, hitems⟩
    refine ⟨by omega, fun a ha => ?_⟩
    have ha := hitems a ha
    omega
  · rintro ⟨h, hitems⟩
    refine ⟨by omega, by omega, fun a ha => ?_⟩
    have ha := hitems a ha
    omega

/-- So does a list of records, which are two levels further inside. -/
theorem recordsCopyDepth_le_iff {α : Type} {depth : α → ℕ} {records : List α} {n : ℕ} :
    2 + recordsCopyDepth depth records ≤ n ↔ 5 ≤ n ∧ ∀ r ∈ records, 6 + depth r ≤ n := by
  rw [recordsCopyDepth, two_add_copyDepthOver_map_le_iff]
  refine and_congr_right fun _ => forall₂_congr fun r _ => ?_
  omega

namespace Scalar

/-- No scalar takes more than the levels of a time with a zone. -/
theorem copyDepth_le (s : Scalar) : s.copyDepth ≤ 11 := by
  cases s with
  | timestamp t =>
    rw [copyDepth]
    split <;> omega
  | _ => simp [copyDepth]

end Scalar

namespace Value

/-- The depths of the items, one by one. -/
theorem itemDepths_eq (items : List Value) : itemDepths items = items.map copyDepth := by
  induction items with
  | nil => rfl
  | cons v rest ih => rw [itemDepths, ih, List.map_cons]

/-- The depths of the keys and of their values. -/
theorem entryDepths_eq (ms : List (Scalar × Value)) :
    entryDepths ms = ms.flatMap fun m => [m.1.copyDepth, m.2.copyDepth] := by
  induction ms with
  | nil => rfl
  | cons m rest ih =>
    obtain ⟨k, v⟩ := m
    rw [entryDepths, ih]
    rfl

/-- A list keeps to a limit when its items do, two levels further inside. -/
theorem copyDepth_list_le_iff {items : List Value} {n : ℕ} :
    (list items).copyDepth ≤ n ↔ 3 ≤ n ∧ ∀ v ∈ items, 2 + v.copyDepth ≤ n := by
  rw [copyDepth, copyDepthOver_le_iff, itemDepths_eq, List.forall_mem_map]

/-- A mapping does so when its keys and values do. -/
theorem copyDepth_object_le_iff {ms : List (Scalar × Value)} {n : ℕ} :
    (object ms).copyDepth ≤ n ↔
      3 ≤ n ∧ ∀ m ∈ ms, 2 + m.1.copyDepth ≤ n ∧ 2 + m.2.copyDepth ≤ n := by
  rw [copyDepth, copyDepthOver_le_iff, entryDepths_eq]
  simp only [List.mem_flatMap, forall_exists_index, and_imp, List.mem_cons, List.not_mem_nil,
    or_false]
  refine and_congr_right fun _ => ⟨fun h m hm => ⟨h _ m hm (.inl rfl), h _ m hm (.inr rfl)⟩, ?_⟩
  rintro h d m hm (rfl | rfl)
  · exact (h m hm).1
  · exact (h m hm).2

/-! ## Values -/

/-- A value with a JSON form is not too deep to be copied. -/
theorem copyDepth_le_of_plainWithin {depth : ℕ} {v : Value} {j : Json}
    (h : plainWithin depth v = .ok j) : v.copyDepth ≤ 3 * depth + 10 := by
  induction depth generalizing v j with
  | zero => simp [plainWithin] at h
  | succ depth ih =>
    cases v with
    | scalar s =>
      have hs := s.copyDepth_le
      rw [copyDepth]
      omega
    | list items =>
      obtain ⟨js, hjs, -⟩ := plainWithin_list.mp h
      refine copyDepth_list_le_iff.mpr ⟨by omega, fun v hv => ?_⟩
      obtain ⟨j, hj⟩ := Except.exists_mapM_iff.mp ⟨js, hjs⟩ v hv
      have hv := ih hj
      omega
    | pair a b =>
      simp only [plainWithin, Except.bind_eq_ok_iff] at h
      obtain ⟨ja, ha, jb, hb, -⟩ := h
      have ha := ih ha
      have hb := ih hb
      rw [copyDepth]
      omega
    | set members =>
      rw [plainWithin] at h
      split at h
      · cases h
      · next hdepth =>
        have hmembers : copyDepthOver (members.map Scalar.copyDepth) ≤ 3 * depth + 10 := by
          refine copyDepthOver_le_iff.mpr ⟨by omega, List.forall_mem_map.mpr fun s hs => ?_⟩
          -- a set with members has two levels
          have hpos : depth ≠ 0 := fun hzero => hdepth ⟨hzero, List.ne_nil_of_mem hs⟩
          have hs := s.copyDepth_le
          omega
        rw [copyDepth]
        omega
    | object ms =>
      obtain ⟨ps, hps, -⟩ := plainWithin_object.mp h
      refine copyDepth_object_le_iff.mpr ⟨by omega, fun m hm => ?_⟩
      obtain ⟨r, hr⟩ := Except.exists_mapM_iff.mp ⟨ps, hps⟩ m hm
      have hvalue := (plainEntry_eq_ok_iff.mp hr).2
      -- an entry takes a second level, which its key has, too
      have hpos : depth ≠ 0 := by
        rintro rfl
        simp [plainWithin] at hvalue
      have hkey := m.1.copyDepth_le
      have hvalue := ih hvalue
      omega
    | cycle isObject => cases h

/-- The depth of a value does not depend on the order of entries. -/
theorem copyDepth_ordered (v : Value) : v.ordered.copyDepth = v.copyDepth := by
  refine eq_of_forall_ge_iff fun n => ?_
  -- on the value: sorting the names of a mapping keeps its members, and the depth asks for nothing else
  induction v using structural generalizing n with
  | list items ih =>
    rw [ordered, copyDepth_list_le_iff, copyDepth_list_le_iff, orderedItems_eq, List.forall_mem_map]
    exact and_congr_right fun _ => forall₂_congr fun v hv => by
      rw [eq_of_forall_ge_iff (ih v hv)]
  | pair a b iha ihb =>
    rw [ordered, copyDepth, copyDepth, eq_of_forall_ge_iff iha, eq_of_forall_ge_iff ihb]
  | object ms ih =>
    rw [ordered, copyDepth_object_le_iff, copyDepth_object_le_iff]
    simp only [(List.mergeSort_perm _ _).mem_iff]
    rw [orderedEntries_eq, List.forall_mem_map]
    exact and_congr_right fun _ => forall₂_congr fun m hm => by
      rw [eq_of_forall_ge_iff (ih m hm)]
  | _ => exact Iff.rfl

/-- A list in a list, and so on, with the empty list inside. -/
def nested : ℕ → Value
  | 0 => .list []
  | n + 1 => .list [nested n]

/-- Every list takes two calls. -/
theorem copyDepth_nested (n : ℕ) : (nested n).copyDepth = 2 * n + 3 := by
  induction n with
  | zero => rfl
  | succ n ih =>
    rw [nested, copyDepth, itemDepths, itemDepths, ih, copyDepthOver]
    simp only [List.foldr_cons, List.foldr_nil]
    omega

end Value

/-! ## Types -/

/-- The greatest depth that a mapping has whose values have JSON forms. -/
def maxMappingDepth : ℕ := 3 * maxPlainDepth + 12

/-- What can be written is not too deep for a mapping of it to be copied. -/
theorem copyDepth_entries_le {ms : List (Text × Value)} (h : ∀ m ∈ ms, ∃ j, m.2.plain = .ok j) :
    (Value.object (TypeRef.entries ms)).copyDepth ≤ maxMappingDepth := by
  refine Value.copyDepth_object_le_iff.mpr ⟨by decide, ?_⟩
  rw [TypeRef.entries, List.forall_mem_map]
  intro m hm
  obtain ⟨j, hj⟩ := h m hm
  have hvalue := Value.copyDepth_le_of_plainWithin hj
  -- the names are texts, which are copied at no depth of their own
  dsimp only [Scalar.copyDepth]
  rw [maxMappingDepth]
  omega

namespace TypeRef

variable {t : TypeRef} {j : Json}

theorem copyDepth_le_of_plain (h : t.plain = .ok j) : t.toValue.copyDepth ≤ maxMappingDepth := by
  cases t with
  | named n => exact (by decide : 2 ≤ maxMappingDepth)
  | composite ms =>
    exact copyDepth_entries_le (exists_plain_of_plainAccount (plain_composite_iff.mp h))

end TypeRef

/-! ## Records -/

/-- A list can be written only if each of its items can. -/
theorem plainList_spec {α : Type} {form : α → Except PlainFault Json} {items : List α} {j : Json}
    (h : plainList form items = .ok j) : ∀ a ∈ items, ∃ j, form a = .ok j := by
  obtain ⟨js, hjs, -⟩ := Except.bind_pure_eq_ok_iff.mp h
  exact Except.exists_mapM_iff.mp ⟨js, hjs⟩

/-- What is given can be written only if it has a form. -/
theorem plainGiven_spec {α : Type} {name : String} {form : α → Except PlainFault Json} {o : Option α}
    {ps : List (Text × Json)} (h : plainGiven name form o = .ok ps) : ∀ a ∈ o, ∃ j, form a = .ok j := by
  rintro a rfl
  obtain ⟨j, hj, -⟩ := Except.bind_pure_eq_ok_iff.mp h
  exact ⟨j, hj⟩

/-- The arguments of an instruction with a JSON form have one. -/
theorem Instruction.exists_plain_of_plain {ix : Instruction} {j : Json} (h : ix.plain = .ok j) :
    ∀ a ∈ ix.arguments, ∃ j, a.plain = .ok j := by
  obtain ⟨args, hargs, -⟩ := Except.bind_eq_ok_iff.mp h
  rw [arguments]
  -- without a list of arguments there is nothing to show
  cases hix : ix.args with
  | none => simp
  | some as =>
    rw [hix] at hargs
    obtain ⟨j, hj⟩ := plainGiven_spec hargs as rfl
    exact plainList_spec hj

/-- The instructions of a schema with a JSON form have one. -/
theorem Schema.exists_plain_of_plain {s : Schema} {j : Json} (h : s.plain = .ok j) :
    ∀ ix ∈ s.instructions, ∃ j, ix.plain = .ok j := by
  obtain ⟨version, -, h⟩ := Except.bind_eq_ok_iff.mp h
  obtain ⟨name, -, h⟩ := Except.bind_eq_ok_iff.mp h
  obtain ⟨j, hj, -⟩ := Except.bind_eq_ok_iff.mp h
  exact plainList_spec hj

/-- An argument is no more than two levels deeper than a mapping. -/
theorem Argument.copyDepth_le_of_plain {a : Argument} {j : Json} (h : a.plain = .ok j) :
    a.copyDepth ≤ maxMappingDepth + 2 := by
  simp only [plain, Except.bind_eq_ok_iff] at h
  obtain ⟨jt, htype, ps, hextra, -⟩ := h
  -- an argument is its type and the members beside it; each has a written form, which bounds its depth
  have htype := TypeRef.copyDepth_le_of_plain htype
  have hextra := copyDepth_entries_le (exists_plain_of_plainExtras hextra)
  rw [copyDepth, recordCopyDepth_le_iff, copyDepthOver_le_iff]
  have hpositive : 5 ≤ maxMappingDepth := by decide
  simp only [List.forall_mem_cons, List.not_mem_nil, false_implies, implies_true, and_true]
  omega

namespace Instruction

/-- The limit that an instruction keeps, told from its parts. -/
theorem copyDepth_le_iff {ix : Instruction} {n : ℕ} :
    ix.copyDepth ≤ n ↔ 5 ≤ n ∧ (∀ a ∈ ix.arguments, 6 + a.copyDepth ≤ n) ∧
      (Value.object (TypeRef.entries ix.extra)).copyDepth ≤ n := by
  rw [copyDepth, recordCopyDepth_le_iff, copyDepthOver_le_iff]
  simp only [List.forall_mem_cons, List.not_mem_nil, false_implies, implies_true, and_true,
    recordsCopyDepth_le_iff]
  -- the bound on the arguments is only carried across, and `omega` need not look inside
  generalize (∀ a ∈ ix.arguments, 6 + a.copyDepth ≤ n) = arguments
  constructor
  · rintro ⟨⟨-, -, h⟩, hextra⟩
    exact ⟨h.1, h.2, hextra⟩
  · rintro ⟨h, harguments, hextra⟩
    exact ⟨⟨by omega, by omega, h, harguments⟩, hextra⟩

theorem copyDepth_le_of_plain {ix : Instruction} {j : Json} (h : ix.plain = .ok j) :
    ix.copyDepth ≤ maxMappingDepth + 8 := by
  have harguments := exists_plain_of_plain h
  simp only [plain, Except.bind_eq_ok_iff] at h
  obtain ⟨as, -, ps, hextra, -⟩ := h
  have hextra := copyDepth_entries_le (exists_plain_of_plainExtras hextra)
  refine copyDepth_le_iff.mpr ⟨by omega, fun a ha => ?_, by omega⟩
  obtain ⟨j, hj⟩ := harguments a ha
  have hargument := Argument.copyDepth_le_of_plain hj
  omega

end Instruction

/-- A type that can be written can be copied. -/
theorem TypeDef.copyDepth_le_of_plain {t : TypeDef} {j : Json} (h : t.plain = .ok j) :
    t.copyDepth ≤ maxMappingDepth := by
  obtain ⟨ps, hextra, -⟩ := Except.bind_pure_eq_ok_iff.mp h
  have hextra := copyDepth_entries_le (exists_plain_of_plainExtras hextra)
  exact recordCopyDepth_le_iff.mpr ⟨by decide, hextra⟩

/-- So can an error. -/
theorem ErrorDef.copyDepth_le_of_plain {e : ErrorDef} {j : Json} (h : e.plain = .ok j) :
    e.copyDepth ≤ maxMappingDepth := by
  obtain ⟨code, -, h⟩ := Except.bind_eq_ok_iff.mp h
  obtain ⟨ps, hextra, -⟩ := Except.bind_pure_eq_ok_iff.mp h
  have hextra := copyDepth_entries_le (exists_plain_of_plainExtras hextra)
  exact recordCopyDepth_le_iff.mpr ⟨by decide, hextra⟩

namespace Schema

/-- The limit that a schema keeps, told from its parts. -/
theorem copyDepth_le_iff {s : Schema} {n : ℕ} :
    s.copyDepth ≤ n ↔ 5 ≤ n ∧ (∀ ix ∈ s.instructions, 6 + ix.copyDepth ≤ n) ∧
      (∀ t ∈ s.types, 6 + t.copyDepth ≤ n) ∧
      (∀ ms ∈ s.accounts.getD [], 4 + (Value.object (TypeRef.entries ms)).copyDepth ≤ n) ∧
      (∀ e ∈ s.errors.getD [], 6 + e.copyDepth ≤ n) ∧
      (Value.object (TypeRef.entries s.extra)).copyDepth ≤ n := by
  rw [copyDepth, recordCopyDepth_le_iff, copyDepthOver_le_iff]
  -- accounts are plain mappings, and lie two levels less deep than records
  simp only [List.forall_mem_cons, List.not_mem_nil, false_implies, implies_true, and_true,
    recordsCopyDepth_le_iff, two_add_copyDepthOver_map_le_iff]
  constructor
  · rintro ⟨⟨-, -, hinstructions, htypes, haccounts, herrors⟩, hextra⟩
    exact ⟨hinstructions.1, hinstructions.2, htypes.2, haccounts.2, herrors.2, hextra⟩
  · rintro ⟨h, hinstructions, htypes, haccounts, herrors, hextra⟩
    exact ⟨⟨by omega, by omega, ⟨h, hinstructions⟩, ⟨h, htypes⟩, ⟨h, haccounts⟩, h, herrors⟩, hextra⟩

/-- A schema is not too deep if it is not with other instructions, and its own are not too deep either. -/
theorem copyDepth_le_of_instructions {s : Schema} {ixs : List Instruction} {n : ℕ}
    (h : copyDepth { s with instructions := ixs } ≤ n)
    (hixs : ∀ ix ∈ s.instructions, 6 + ix.copyDepth ≤ n) : s.copyDepth ≤ n := by
  obtain ⟨hfive, -, hrest⟩ := copyDepth_le_iff.mp h
  exact copyDepth_le_iff.mpr ⟨hfive, hixs, hrest⟩

/-- A schema with a member of so many lists in one another is too deep. -/
theorem lt_copyDepth_of_nested {s : Schema} {name : Text} {n : ℕ} (h : (name, .nested n) ∈ s.extra)
    (hn : 492 ≤ n) : maxCopyDepth < s.copyDepth := by
  by_contra hle
  have hextra := (copyDepth_le_iff.mp (not_lt.mp hle)).2.2.2.2.2
  have hmem : (Scalar.text name, Value.nested n) ∈ TypeRef.entries s.extra := List.mem_map_of_mem h
  have hvalue : 2 + (Value.nested n).copyDepth ≤ maxCopyDepth :=
    ((Value.copyDepth_object_le_iff.mp hextra).2 _ hmem).2
  rw [Value.copyDepth_nested, maxCopyDepth] at hvalue
  omega

theorem copyDepth_le_of_plain {s : Schema} {j : Json} (h : s.plain = .ok j) :
    s.copyDepth ≤ maxCopyDepth := by
  have hinstructions := exists_plain_of_plain h
  simp only [plain, Except.bind_eq_ok_iff] at h
  obtain ⟨version, -, name, -, ixs, -, types, htypes, accounts, haccounts, errors, herrors,
    extra, hextra, -⟩ := h
  -- a member stands at most 14 levels below the schema: 6 for a record of a list, 8 for what it holds
  have hbound : maxMappingDepth + 14 ≤ maxCopyDepth := by decide
  -- a list that is left out is no different from an empty one
  have hgiven {α : Type} {name : String} {form : α → Except PlainFault Json} {o : Option (List α)}
      {ps : List (Text × Json)} (h : plainGiven name (plainList form) o = .ok ps) :
      ∀ a ∈ o.getD [], ∃ j, form a = .ok j := by
    cases o with
    | none => simp
    | some as =>
      obtain ⟨j, hj⟩ := plainGiven_spec h as rfl
      exact plainList_spec hj
  refine copyDepth_le_iff.mpr ⟨by decide, fun ix hix => ?_, fun t ht => ?_, fun ms hms => ?_,
    fun e he => ?_, ?_⟩
  · obtain ⟨j, hj⟩ := hinstructions ix hix
    have hdepth := Instruction.copyDepth_le_of_plain hj
    omega
  · obtain ⟨j, hj⟩ := plainList_spec htypes t ht
    have hdepth := TypeDef.copyDepth_le_of_plain hj
    omega
  · obtain ⟨j, hj⟩ := hgiven haccounts ms hms
    have hdepth := copyDepth_entries_le (exists_plain_of_plainAccount hj)
    omega
  · obtain ⟨j, hj⟩ := hgiven herrors e he
    have hdepth := ErrorDef.copyDepth_le_of_plain hj
    omega
  · have hdepth := copyDepth_entries_le (exists_plain_of_plainExtras hextra)
    omega

end Schema

/-! ## Patches -/

namespace PatchTable

variable {t : PatchTable}

/-- A patched instruction has all the arguments and other members of the instruction. -/
theorem copyDepth_le_patched (t : PatchTable) (ix : Instruction) :
    ix.copyDepth ≤ (t.patched ix).copyDepth := by
  by_cases h : (t.standing? ix).any Standing.isLacking = true
  · obtain ⟨rule, hrule, hlacking⟩ := any_isLacking_iff.mp h
    rw [patched_of_lacking hrule hlacking]
    -- the patch only adds an argument, so each argument of before is still there to be copied
    obtain ⟨hfive, harguments, hextra⟩ :=
      Instruction.copyDepth_le_iff.mp (le_refl (ix.push rule.append).copyDepth)
    refine Instruction.copyDepth_le_iff.mpr ⟨hfive, fun a ha => harguments a ?_, hextra⟩
    rw [arguments_push]
    exact List.mem_append_left _ ha
  · rw [patched_of_not_lacking (Bool.eq_false_iff.mpr h)]

/-- The argument that an instruction lacks is one of those of the patched instruction. -/
theorem copies_of_patched {ix : Instruction} (h : (t.patched ix).copyDepth ≤ maxCopyDepth) :
    t.copies ix = true := by
  rw [copies]
  cases hrule : t.rule? ix.name with
  | none => rfl
  | some rule =>
    rw [Option.all_some, PatchRule.copies]
    -- only a lacking instruction gets a copy of the argument; the other standings need no room for it
    split
    · next hstanding =>
      have hlacking : (ix.standing rule.append).isLacking = true := by rw [hstanding]; rfl
      rw [patched_of_lacking hrule hlacking] at h
      have happend := (Instruction.copyDepth_le_iff.mp h).2.1 rule.append (by simp [arguments_push])
      rw [decide_eq_true_eq]
      omega
    · rfl

/-- **A schema can be copied if its patch can be**, and so can all that the patch adds. -/
theorem Copies.of_patchedSchema {s : Schema} (h : (t.patchedSchema s).copyDepth ≤ maxCopyDepth) :
    t.Copies s := by
  have hpatched : ∀ ix ∈ s.instructions, 6 + (t.patched ix).copyDepth ≤ maxCopyDepth := fun ix hix =>
    (Schema.copyDepth_le_iff.mp h).2.1 _ (List.mem_map_of_mem hix)
  refine ⟨Schema.copyDepth_le_of_instructions h fun ix hix => ?_, fun ix hix => ?_⟩
  · have hdepth := t.copyDepth_le_patched ix
    have hix := hpatched ix hix
    omega
  · have hix := hpatched ix hix
    exact copies_of_patched (by omega)

/-- **A patch whose outcome can be written is not stopped by what it has to copy.** -/
theorem Copies.of_plain {s : Schema} {j : Json} (h : (t.patchedSchema s).plain = .ok j) : t.Copies s :=
  .of_patchedSchema (Schema.copyDepth_le_of_plain h)

end PatchTable

end SchemaGraft
