import SchemaGraft.Proofs.Patch.File

/-!
# What a Patch Does to a Document

The patch of a file, seen as an edit of the JSON value that the file holds.

## Architecture

- **Edits**: `PatchTable.edit` appends arguments, converts the numbers of errors, and drops numbers without
  a finite value; it touches nothing else.
- **Instructions**: `PatchTable.check_editInstruction`, what the check makes of an edited instruction.
- **Schemas**: `PatchTable.check_editInstructions` for the whole document.  The check does not give the
  patched schema but that of `PatchTable.settled`, because what is appended to a document has been written
  already; both have the same JSON form.
- **Main result**: `PatchTable.patchFile_effect`.
-/

namespace SchemaGraft

open Json (names lookup put)
open Format (integerForm)

/-! ## Edits -/

namespace PatchTable

/-- The instruction of a document with the argument that it lacks at the end of its list. -/
def editInstruction (t : PatchTable) (v : Json) : Json :=
  match (v.textAt "name").bind t.rule? with
  | none => v
  | some rule =>
    if (v.itemsAt "args").any fun a => a.textAt "name" == some rule.append.name then v
    else
      match rule.append.plain with
      | .ok form => Json.setMember "args" (.list (v.itemsAt "args" ++ [form])) v
      | .error _ => v

/-- The document with every instruction patched. -/
def editInstructions (t : PatchTable) : Json → Json :=
  Json.mapMember "instructions" (Json.mapItems t.editInstruction)

/-- The document with every instruction patched, every number of an error converted to an integer, and
null in the place of every number without a finite value. -/
def edit (t : PatchTable) (v : Json) : Json :=
  ((t.editInstructions v).mapMember "errors"
    (Json.mapItems (Json.mapMember "code" integerForm))).dropNonFinite

end PatchTable

/-! ## Instructions -/

/-- The name of an argument is the text that its document holds under `name`. -/
theorem Argument.textAt_of_check {v : Json} {a : Argument}
    (h : Argument.check (.ofJson v) = .ok a) : v.textAt "name" = some a.name := by
  rw [← Format.read_argument, Format.argument, Format.read_record_iff] at h
  obtain ⟨ms, rfl, -, h⟩ := h
  obtain ⟨hname, -⟩ := Part.readJson_pair_iff.mp h
  rw [Json.textAt, Part.readJson_text_iff.mp hname]
  rfl

/-- The members of an object that is read as an instruction. -/
structure InstructionMembers (ms : List (Text × Json)) (ix : Instruction) : Prop where
  /-- The names of the members can be encoded. -/
  names : ∀ n ∈ names ms, n.Encodable
  /-- The name of the instruction. -/
  name : lookup (Text.ofString "name") ms = some (.text ix.name)
  /-- The list of arguments, if it is there. -/
  items : lookup (Text.ofString "args") ms = some (.list ((Json.object ms).itemsAt "args")) ∨
    lookup (Text.ofString "args") ms = none ∧ (Json.object ms).itemsAt "args" = []
  /-- The arguments. -/
  arguments : List.Forall₂ (fun v a => Argument.check (.ofJson v) = .ok a)
    ((Json.object ms).itemsAt "args") ix.arguments
  /-- The other members. -/
  extra : (Part.extras ["name", "args"]).readJson ms = .ok ix.extra

theorem Instruction.members_of_check {v : Json} {ix : Instruction}
    (h : Instruction.check (.ofJson v) = .ok ix) : ∃ ms, v = .object ms ∧ InstructionMembers ms ix := by
  rw [← Format.read_instruction, Format.instruction, Format.read_record_iff] at h
  obtain ⟨ms, rfl, hnames, h⟩ := h
  obtain ⟨hname, h⟩ := Part.readJson_pair_iff.mp h
  obtain ⟨hargs, hextra⟩ := Part.readJson_pair_iff.mp h
  -- the record is read part by part: the name, the arguments, and the members left over
  replace hname := Part.readJson_text_iff.mp hname
  refine ⟨ms, rfl, ?_⟩
  rcases Part.readJson_possible_iff.mp hargs with ⟨hnone, hix⟩ | ⟨u, as, hu, hread, hix⟩
  · -- without `args` the list of arguments counts as empty
    replace hix : ix.args = none := hix
    have hitems : (Json.object ms).itemsAt "args" = [] := by rw [Json.itemsAt, hnone]
    refine ⟨hnames, hname, .inr ⟨hnone, hitems⟩, ?_, hextra⟩
    rw [hitems, arguments, hix]
    exact .nil
  · replace hix : ix.args = some as := hix
    obtain ⟨items, rfl, hitems⟩ := Check.list_eq_ok_iff.mp hread
    have hitems' : (Json.object ms).itemsAt "args" = items := by rw [Json.itemsAt, hu]
    refine ⟨hnames, hname, .inl (by rw [hitems', hu]), ?_, hextra⟩
    rw [hitems', arguments, hix]
    exact hitems

theorem InstructionMembers.encodable_put {ms : List (Text × Json)} {ix : Instruction}
    (h : InstructionMembers ms ix) (w : Json) :
    ∀ n ∈ Json.names (put (Text.ofString "args") w ms), n.Encodable := by
  intro n hn
  rw [Json.names_put] at hn
  -- either `args` was a name already, or it comes last
  split at hn
  · exact h.names n hn
  · rcases List.mem_append.mp hn with hn | hn
    · exact h.names n hn
    · rw [List.mem_singleton.mp hn]
      exact Text.encodable_ofString _

/-- What a part does not own can be set without the part noticing. -/
theorem Part.own_put {α : Type} {P : Part α} {name : Text} (h : P.owns name = false) (w : Json)
    (ms : List (Text × Json)) : P.own (put name w ms) = P.own ms := by
  induction ms with
  | nil => simp [put, own, h]
  | cons m rest ih =>
    obtain ⟨k, v⟩ := m
    rw [put]
    -- on the members: the member that is put belongs to another part, wherever it lands
    split
    · next hk =>
      subst hk
      simp [own, h]
    · rw [own, List.filter_cons, ← own, ih, own, own, List.filter_cons]

/-- An instruction with one argument more is read as the instruction with this argument. -/
theorem Instruction.check_setMember {ms : List (Text × Json)} {ix : Instruction}
    (h : InstructionMembers ms ix) {form : Json} {a : Argument}
    (hform : Argument.check (.ofJson form) = .ok a) :
    Instruction.check (.ofJson (Json.setMember "args"
      (.list ((Json.object ms).itemsAt "args" ++ [form])) (.object ms))) = .ok (ix.push a) := by
  rw [← Format.read_instruction, Format.instruction, Format.read_record_iff]
  -- of the three parts only the arguments read what was put
  refine ⟨_, rfl, ?_, Part.readJson_pair_iff.mpr ⟨?_, Part.readJson_pair_iff.mpr ⟨?_, ?_⟩⟩⟩
  · exact h.encodable_put _
  · rw [Part.readJson_text_iff, Json.lookup_put, if_neg (by decide), h.name]
    rfl
  · refine Part.readJson_possible_iff.mpr (.inr
      ⟨.list ((Json.object ms).itemsAt "args" ++ [form]), ix.arguments ++ [a], ?_, ?_, rfl⟩)
    · rw [Json.lookup_put, if_pos rfl]
    · refine Check.list_eq_ok_iff.mpr ⟨_, rfl, ?_⟩
      exact List.rel_append h.arguments (.cons hform .nil)
  · exact (Part.lawful_extras.locality (Part.own_put rfl _ ms)).trans h.extra

/-! ## Settled Tables -/

/-- What comes back when an argument has been written, and that it is written in the same way. -/
theorem Argument.comesBack {a : Argument} (ha : a.WellFormed) {form : Json}
    (h : a.plain = .ok form) :
    form.Settled ∧ Argument.check (.ofJson form) = .ok a.settled ∧ a.settled.plain = .ok form := by
  rw [← Format.write_argument] at h
  obtain ⟨hsettled, -, hread, hwrite⟩ := Format.lawful_argument.comesBack ha h
  rw [Format.write_argument] at hwrite
  exact ⟨hsettled, hread, hwrite⟩

namespace PatchTable

/-- The table with every appended argument as it comes back when it has been written. -/
def settled (t : PatchTable) : PatchTable :=
  { t with rules := t.rules.map fun r => { r with append := r.append.settled } }

variable {t : PatchTable} {ix : Instruction}

theorem rule?_settled (t : PatchTable) (name : Text) :
    t.settled.rule? name =
      (t.rule? name).map fun r => { r with append := r.append.settled } := by
  rw [rule?, settled, List.find?_map]
  rfl

theorem lacks_settled (t : PatchTable) (o : Text × List Text) : t.settled.lacks o = t.lacks o := by
  rw [lacks, lacks, rule?_settled, Option.any_map]
  rfl

/-- An instruction that lacks its argument gets it from the settled table as it comes back. -/
theorem patched_settled_of_lacking {rule : PatchRule} (hrule : t.rule? ix.name = some rule)
    (h : (ix.standing rule.append).isLacking = true) :
    t.settled.patched ix = ix.push rule.append.settled := by
  have hsettled : t.settled.rule? ix.name = some { rule with append := rule.append.settled } := by
    rw [rule?_settled, hrule]
    rfl
  refine patched_of_lacking hsettled ?_
  rw [Instruction.standing_isLacking_iff] at h ⊢
  exact h

theorem patched_settled_of_not_lacking (h : t.lacks ix.outline = false) :
    t.settled.patched ix = ix := by
  apply patched_of_not_lacking
  rw [any_isLacking_eq_lacks, lacks_settled, h]

/-- Do the appended arguments that an instruction needs have a JSON form? -/
def Writes (t : PatchTable) (ix : Instruction) : Prop :=
  ∀ rule, t.rule? ix.name = some rule → (ix.standing rule.append).isLacking = true →
    ∃ form, rule.append.plain = .ok form

theorem plain_push_congr {a b : Argument} (h : a.plain = b.plain) :
    (ix.push a).plain = (ix.push b).plain := by
  simp [Instruction.plain, Instruction.push, plainGiven, plainList, List.mapM_append, h]

/-- The settled table and the table itself lead to the same JSON form. -/
theorem plain_patched_settled (ht : t.WellFormed) (hwrites : t.Writes ix) :
    (t.settled.patched ix).plain = (t.patched ix).plain := by
  -- the two tables differ in the arguments alone, and an argument shows in the form only where it is added
  by_cases h : t.lacks ix.outline = true
  · obtain ⟨rule, hrule, hlacking⟩ := lacks_iff.mp h
    obtain ⟨form, hform⟩ := hwrites rule hrule hlacking
    have hback := (Argument.comesBack (ht.append rule (mem_rules_of_rule? hrule)) hform).2.2
    rw [patched_settled_of_lacking hrule hlacking, patched_of_lacking hrule hlacking]
    exact plain_push_congr (hback.trans hform.symm)
  · have h := Bool.eq_false_iff.mpr h
    rw [patched_settled_of_not_lacking h, patched_of_not_lacking]
    rw [any_isLacking_eq_lacks, h]

/-! ## Edited Instructions -/

/-- The items of the arguments are named as the arguments are. -/
theorem any_textAt_iff {items : List Json} {as : List Argument} {name : Text}
    (h : List.Forall₂ (fun v a => Argument.check (.ofJson v) = .ok a) items as) :
    (items.any fun v => v.textAt "name" == some name) = true ↔ name ∈ as.map (·.name) := by
  induction h with
  | nil => simp
  | cons hhead _ ih =>
    rw [List.any_cons, Bool.or_eq_true, ih, Argument.textAt_of_check hhead, List.map_cons,
      List.mem_cons, beq_iff_eq, Option.some.injEq, eq_comm]

/-- What an edit does to an instruction: nothing, or one argument is added to its list. -/
theorem editInstruction_cases {ms : List (Text × Json)} (hms : InstructionMembers ms ix)
    (hwrites : t.Writes ix) :
    t.lacks ix.outline = false ∧ t.editInstruction (.object ms) = .object ms ∨
      ∃ rule form, t.rule? ix.name = some rule ∧ (ix.standing rule.append).isLacking = true ∧
        rule.append.plain = .ok form ∧ t.editInstruction (.object ms) =
          Json.setMember "args" (.list ((Json.object ms).itemsAt "args" ++ [form])) (.object ms) := by
  have hname : (Json.object ms).textAt "name" = some ix.name := by rw [Json.textAt, hms.name]
  unfold editInstruction
  rw [hname, Option.bind_some]
  cases hrule : t.rule? ix.name with
  | none =>
    left
    rw [lacks, Instruction.outline, hrule]
    exact ⟨rfl, rfl⟩
  | some rule =>
    dsimp only
    split
    · next hany =>
      -- an argument of the name is there, whatever its type
      left
      have hthere := (any_textAt_iff hms.arguments).mp hany
      rw [lacks, Instruction.outline, hrule]
      exact ⟨by simpa using hthere, rfl⟩
    · next hany =>
      right
      have hlacking : (ix.standing rule.append).isLacking = true := by
        rw [Instruction.standing_isLacking_iff, ← any_textAt_iff hms.arguments]
        exact hany
      obtain ⟨form, hform⟩ := hwrites rule hrule hlacking
      refine ⟨rule, form, rfl, hlacking, hform, ?_⟩
      rw [hform]

/-- **An edited instruction is read as the patched one.** -/
theorem check_editInstruction (ht : t.WellFormed) {v : Json}
    (h : Instruction.check (.ofJson v) = .ok ix) (hwrites : t.Writes ix) :
    Instruction.check (.ofJson (t.editInstruction v)) = .ok (t.settled.patched ix) := by
  obtain ⟨ms, rfl, hms⟩ := Instruction.members_of_check h
  -- an instruction that lacks nothing is read as before; one that lacks gets the form, which reads back
  rcases editInstruction_cases hms hwrites with
    ⟨hlacks, hedit⟩ | ⟨rule, form, hrule, hlacking, hform, hedit⟩
  · rw [hedit, patched_settled_of_not_lacking hlacks]
    exact h
  · have hback := (Argument.comesBack (ht.append rule (mem_rules_of_rule? hrule)) hform).2.1
    rw [hedit, patched_settled_of_lacking hrule hlacking]
    exact Instruction.check_setMember hms hback

end PatchTable

/-! ## Edited Schemas -/

/-- Replacing one member is not noticed by a part that does not own it. -/
theorem Part.Lawful.readJson_mapMember {α : Type} {P : Part α} (hP : P.Lawful) {name : Text}
    (h : P.owns name = false) (f : Json → Json) (ms : List (Text × Json)) :
    P.readJson (ms.map fun m => (m.1, if m.1 = name then f m.2 else m.2)) = P.readJson ms := by
  apply hP.locality
  rw [own, own, List.filter_map]
  refine (List.map_congr_left fun m hm => ?_).trans (List.map_id _)
  -- a member of the part is never the one that is changed
  have howns : P.owns m.1 = true := (List.mem_filter.mp hm).2
  have hne : m.1 ≠ name := by
    rintro rfl
    rw [h] at howns
    cases howns
  rw [if_neg hne]
  rfl

namespace PatchTable

variable {t : PatchTable}

theorem check_items (ht : t.WellFormed) {items : List Json} {ixs : List Instruction}
    (h : List.Forall₂ (fun v ix => Instruction.check (.ofJson v) = .ok ix) items ixs)
    (hwrites : ∀ ix ∈ ixs, t.Writes ix) :
    List.Forall₂ (fun v ix => Instruction.check (.ofJson v) = .ok ix)
      (items.map t.editInstruction) (ixs.map t.settled.patched) := by
  induction h with
  | nil => exact .nil
  | cons hhead _ ih =>
    obtain ⟨hix, hwrites⟩ := List.forall_mem_cons.mp hwrites
    exact .cons (check_editInstruction ht hhead hix) (ih hwrites)

theorem checkInstructions_mapItems (ht : t.WellFormed) {u : Json} {ixs : List Instruction}
    (h : Schema.checkInstructions (.ofJson u) = .ok ixs) (hwrites : ∀ ix ∈ ixs, t.Writes ix) :
    Schema.checkInstructions (.ofJson (Json.mapItems t.editInstruction u)) =
      .ok (ixs.map t.settled.patched) := by
  rw [Format.checkInstructions_eq_ok_iff] at h ⊢
  obtain ⟨hlist, hnodup⟩ := h
  obtain ⟨items, rfl, hitems⟩ := Check.list_eq_ok_iff.mp hlist
  refine ⟨Check.list_eq_ok_iff.mpr ⟨_, rfl, check_items ht hitems hwrites⟩, ?_⟩
  have hnames : (ixs.map t.settled.patched).map (·.name) = ixs.map (·.name) := by
    rw [List.map_map]
    exact List.map_congr_left fun ix _ => name_patched t.settled ix
  rwa [hnames]

/-- **A document with edited instructions is read as the patched schema.** -/
theorem check_editInstructions (ht : t.WellFormed) {raw : Json} {s : Schema}
    (h : Schema.check (.ofJson raw) = .ok s) (hwrites : ∀ ix ∈ s.instructions, t.Writes ix) :
    Schema.check (.ofJson (t.editInstructions raw)) = .ok (t.settled.patchedSchema s) := by
  rw [← Format.read_schema, Format.schema, Format.read_record_iff] at h ⊢
  obtain ⟨ms, rfl, hnames, h⟩ := h
  simp only [Part.readJson_pair_iff] at h ⊢
  obtain ⟨hversion, hname, hinstructions, htypes, haccounts, herrors, hextra⟩ := h
  refine ⟨_, rfl, by rwa [Json.names_mapMembers], ?_, ?_, ?_, ?_, ?_, ?_, ?_⟩
  · rw [(Part.lawful_possible _ Format.lawful_optionalText).readJson_mapMember rfl]
    exact hversion
  · rw [(Part.lawful_possible _ Format.lawful_optionalText).readJson_mapMember rfl]
    exact hname
  · -- the one member that the edit replaces; all others are read as before
    rw [Part.readJson_required_iff, Part.readJson_possible_iff] at hinstructions ⊢
    rcases hinstructions with ⟨-, h⟩ | ⟨u, ixs, hu, hread, hixs⟩
    · cases h
    · refine .inr ⟨Json.mapItems t.editInstruction u, s.instructions.map t.settled.patched, ?_, ?_, rfl⟩
      · rw [Json.lookup_mapMembers, hu, Option.map_some, if_pos rfl]
      · cases hixs
        exact checkInstructions_mapItems ht hread hwrites
  · rw [(Part.lawful_required _ Format.lawful_typeDef.list).readJson_mapMember rfl]
    exact htypes
  · rw [(Part.lawful_possible _ Format.lawful_mapping.list).readJson_mapMember rfl]
    exact haccounts
  · rw [(Part.lawful_possible _ Format.lawful_errorDef.list).readJson_mapMember rfl]
    exact herrors
  · rw [Part.lawful_extras.readJson_mapMember rfl]
    exact hextra

end PatchTable

/-! ## Forms of Patched Schemas -/

theorem plainList_map_congr {α β : Type} {form : β → Except PlainFault Json} {f g : α → β}
    {as : List α} (h : ∀ a ∈ as, form (f a) = form (g a)) :
    plainList form (as.map f) = plainList form (as.map g) := by
  have hforms : (as.map f).mapM form = (as.map g).mapM form := by
    induction as with
    | nil => rfl
    | cons a as ih =>
      obtain ⟨ha, has⟩ := List.forall_mem_cons.mp h
      rw [List.map_cons, List.map_cons, List.mapM_cons, List.mapM_cons, ha, ih has]
  rw [plainList, plainList, hforms]

namespace PatchTable

variable {t : PatchTable}

/-- Where a patched schema has a JSON form, so have all arguments that were appended. -/
theorem writes_of_plain {s : Schema} {j : Json} (h : (t.patchedSchema s).plain = .ok j) :
    ∀ ix ∈ s.instructions, t.Writes ix := by
  intro ix hix rule hrule hlacking
  obtain ⟨i, hi⟩ := Schema.exists_plain_of_plain h (t.patched ix) (List.mem_map_of_mem hix)
  rw [patched_of_lacking hrule hlacking] at hi
  exact Instruction.exists_plain_of_plain hi _ (by simp [arguments_push])

theorem plain_patchedSchema_settled (ht : t.WellFormed) {s : Schema}
    (hwrites : ∀ ix ∈ s.instructions, t.Writes ix) :
    (t.settled.patchedSchema s).plain = (t.patchedSchema s).plain := by
  have hlist : plainList Instruction.plain (s.instructions.map t.settled.patched) =
      plainList Instruction.plain (s.instructions.map t.patched) :=
    plainList_map_congr fun ix hix => plain_patched_settled ht (hwrites ix hix)
  simp only [Schema.plain, patchedSchema, hlist]

end PatchTable

/-! ## Names -/

/-- The items of the list of instructions are read as the instructions of the schema. -/
theorem Schema.exists_check_of_mem {ms : List (Text × Json)} {items : List Json} {s : Schema}
    (hnodup : (names ms).Nodup) (h : Schema.check (.ofJson (.object ms)) = .ok s)
    (hitems : (Text.ofString "instructions", Json.list items) ∈ ms) :
    ∀ v ∈ items, ∃ ix ∈ s.instructions, Instruction.check (.ofJson v) = .ok ix := by
  rw [← Format.read_schema, Format.schema, Format.read_record_iff] at h
  obtain ⟨_, hms, -, h⟩ := h
  cases hms
  simp only [Part.readJson_pair_iff, Part.readJson_required_iff, Part.readJson_possible_iff] at h
  obtain ⟨-, -, ⟨-, h⟩ | ⟨u, ixs, hu, hread, hixs⟩, -⟩ := h
  · cases h
  · cases hixs
    -- names are distinct, so this member is the one the reader looked up
    cases hu.symm.trans (Json.lookup_of_mem hnodup hitems)
    obtain ⟨hlist, -⟩ := Format.checkInstructions_eq_ok_iff.mp hread
    obtain ⟨_, hlist, hchecked⟩ := Check.list_eq_ok_iff.mp hlist
    cases hlist
    exact fun v hv => hchecked.flip.exists_of_mem_right hv

/-- What is said of names is not affected by the conversion of a number. -/
theorem Format.everywhere_integerForm {node : List Text → Prop} (v : Json) :
    Json.Everywhere (fun _ => True) node (integerForm v) ↔
      Json.Everywhere (fun _ => True) node v := by
  cases v with
  | list items => exact Iff.rfl
  | object ms => exact Iff.rfl
  | _ =>
    -- scalars have no names
    rw [integerForm]
    split <;> exact Iff.rfl

namespace PatchTable

variable {t : PatchTable} {node : List Text → Prop}

theorem everywhere_editInstruction (ht : t.WellFormed)
    (hnode : ∀ ns : List Text, ns.Nodup → (∀ n ∈ ns, n.Encodable) → node ns) {v : Json}
    {ix : Instruction} (hv : v.Proper) (h : Instruction.check (.ofJson v) = .ok ix)
    (hwrites : t.Writes ix) :
    Json.Everywhere (fun _ => True) node (t.editInstruction v) ↔
      Json.Everywhere (fun _ => True) node v := by
  obtain ⟨ms, rfl, hms⟩ := Instruction.members_of_check h
  have hnodup : (Json.names ms).Nodup := (Json.everywhere_object.mp hv).1
  rcases editInstruction_cases hms hwrites with
    ⟨-, hedit⟩ | ⟨rule, form, hrule, -, hform, hedit⟩
  · rw [hedit]
  · have hsettled := (Argument.comesBack (ht.append rule (mem_rules_of_rule? hrule)) hform).1
    rw [hedit]
    apply Json.everywhere_setMember_append hnodup hms.items
    · -- the names are good before and after, as `args` is a good name
      refine iff_of_true ?_ (hnode _ hnodup hms.names)
      exact hnode _ (Json.nodup_names_put _ _ hnodup) (hms.encodable_put _)
    · exact List.forall_mem_singleton.mpr (hsettled.everywhere hnode)

/-- What is said of names is not affected by an edit of an acceptable document. -/
theorem everywhere_editInstructions (ht : t.WellFormed)
    (hnode : ∀ ns : List Text, ns.Nodup → (∀ n ∈ ns, n.Encodable) → node ns) {raw : Json}
    {s : Schema} (hraw : raw.Proper) (h : Schema.check (.ofJson raw) = .ok s)
    (hwrites : ∀ ix ∈ s.instructions, t.Writes ix) :
    Json.Everywhere (fun _ => True) node (t.editInstructions raw) ↔
      Json.Everywhere (fun _ => True) node raw := by
  refine Json.everywhere_mapMember ?_
  rintro ms rfl u hu
  refine Json.everywhere_mapItems ?_
  rintro items rfl v hv
  -- the item is the form of an instruction of the schema, for which the table writes its argument
  obtain ⟨ix, hix, hcheck⟩ :=
    Schema.exists_check_of_mem (Json.everywhere_object.mp hraw).1 h hu v hv
  have hproper := Json.everywhere_list.mp ((Json.everywhere_object.mp hraw).2 _ hu) v hv
  exact everywhere_editInstruction ht hnode hproper hcheck (hwrites ix hix)

/-- What is said of names is not affected by an edit of an acceptable document. -/
theorem everywhere_edit (ht : t.WellFormed)
    (hnode : ∀ ns : List Text, ns.Nodup → (∀ n ∈ ns, n.Encodable) → node ns) {raw : Json}
    {s : Schema} (hraw : raw.Proper) (h : Schema.check (.ofJson raw) = .ok s)
    (hwrites : ∀ ix ∈ s.instructions, t.Writes ix) :
    Json.Everywhere (fun _ => True) node (t.edit raw) ↔
      Json.Everywhere (fun _ => True) node raw := by
  rw [edit, Json.everywhere_dropNonFinite]
  refine Iff.trans ?_ (everywhere_editInstructions ht hnode hraw h hwrites)
  refine Json.everywhere_mapMember fun _ _ u _ => Json.everywhere_mapItems fun _ _ v _ => ?_
  exact Json.everywhere_mapMember fun _ _ w _ => Format.everywhere_integerForm w

/-! ## Effect -/

/-- The form of a patched schema is the edited document, as it is written. -/
theorem sorted_plain_patchedSchema (ht : t.WellFormed) {raw j : Json} {s : Schema}
    (hraw : raw.Proper) (h : Schema.check (.ofJson raw) = .ok s)
    (hj : (t.patchedSchema s).plain = .ok j) : j.sorted = (t.edit raw).renamed.sorted := by
  have hwrites := writes_of_plain hj
  rw [← plain_patchedSchema_settled ht hwrites, ← Format.write_schema] at hj
  have hproper : (t.editInstructions raw).Proper :=
    (everywhere_editInstructions ht (fun _ hnodup _ => hnodup) hraw h hwrites).mpr hraw
  have hwritten := Format.lawful_schema.written hproper (check_editInstructions ht h hwrites) hj
  rwa [Format.normal_schema] at hwritten

/-- **What a successful patch does to the document in a file.**  The file still holds a JSON document, that
of before with `edit` applied, and member names as they are written: the order of lists is kept, and that of
members is the order of their names.  Nothing but `edit` has happened exactly when no member name of the
document, at any level, holds a lone surrogate. -/
theorem patchFile_effect (ht : t.WellFormed) {strict : Bool} {p : Path} {s : Schema} {r : Report}
    {q q' : Pipeline} {content : Bytes} {raw : Json}
    (hread : q.world.files.read p = .ok content) (hraw : Json.ofBytes content = some raw)
    (h : perform (t.patchFile strict p) q = (.ok (s, r), q')) :
    ∃ content' raw', q'.world.files.read p = .ok content' ∧ Json.ofBytes content' = some raw' ∧
      raw'.sorted = (t.edit raw).renamed.sorted ∧
      (raw'.sorted = (t.edit raw).sorted ↔ raw.NamesEncodable) := by
  obtain ⟨run₁, run₂, changed, w, -, -, hupdate, rfl⟩ := perform_patchFile_eq_ok_iff.mp h
  obtain ⟨content₀, s₀, content', hread₀, hs₀, -, -, -, rfl, hbytes, hread'⟩ :=
    read_of_updateFile ht.unambiguous hupdate
  cases hread.symm.trans hread₀
  obtain ⟨raw₀, hraw₀, hcheck⟩ := Schema.ofBytes_eq_ok_iff.mp hs₀
  cases hraw.symm.trans hraw₀
  have hproper := Json.proper_of_ofBytes hraw
  -- the file holds the canonical text of the form of the patched schema
  obtain ⟨text, htext, hencode⟩ := Schema.bytes_eq_ok_iff.mp hbytes
  obtain ⟨j, hj, rfl⟩ := Schema.canonical_eq_ok_iff.mp htext
  have hwellFormed := ht.patchedSchema (Schema.wellFormed_of_check hproper hcheck)
  obtain ⟨hsettled, hwithin, -⟩ := Schema.check_sorted hwellFormed hj
  have hsorted := sorted_plain_patchedSchema ht hproper hcheck hj
  refine ⟨content', j.sorted, hread', Json.ofBytes_canonical hsettled hwithin hencode, ?_, ?_⟩
  · rw [Json.sorted_sorted, hsorted]
  · -- what is written is the edited document but for its names
    have hwrites := writes_of_plain hj
    have hedit : (t.edit raw).Proper :=
      (everywhere_edit ht (fun _ hnodup _ => hnodup) hproper hcheck hwrites).mpr hproper
    rw [Json.sorted_sorted, hsorted, Json.renamed_sorted_eq_iff hedit]
    exact everywhere_edit ht (fun _ _ hnames => hnames) hproper hcheck hwrites

end PatchTable

namespace Lossy

/-- The built-in table patches the document, of which it knows no instruction. -/
theorem patchFile_world :
    ∃ r q, perform (PatchTable.phoenix.patchFile false path) { world := world } =
      (.ok (schema, r), q) := by
  -- the text of the document is encodable, so the file can be written
  have hencodable := (Json.encodable_canonical encodable_form.2).mpr encodable_form.1
  obtain ⟨q, h⟩ : ∃ q, perform (PatchTable.phoenix.patchFile false path) { world := world } =
      (.ok (schema, PatchTable.phoenix.reportOn schema), q) :=
    PatchTable.exists_patchFile PatchTable.conflict?_phoenix rfl
      (Schema.ofBytes_eq_ok_iff.mpr ⟨document, ofBytes_content, rfl⟩) (by simp)
      (PatchTable.shows_iff.mpr fun _ h => nomatch h)
      (Schema.bytes_eq_ok_iff.mpr ⟨_, canonical_schema, Utf8.encode_ok_iff.mpr ⟨hencodable, rfl⟩⟩) rfl
  exact ⟨_, q, h⟩

/-- The built-in table has nothing to append to the document, and yet changes it. -/
theorem patchFile_world_effect :
    ∃ r q content' raw', perform (PatchTable.phoenix.patchFile false path) { world := world } =
        (.ok (schema, r), q) ∧
      q.world.files.read path = .ok content' ∧ Json.ofBytes content' = some raw' ∧
      raw'.sorted ≠ (PatchTable.phoenix.edit document).sorted := by
  -- were the sorted documents one, the names would all be encodable, and one of them is not
  obtain ⟨r, q, h⟩ := patchFile_world
  obtain ⟨content', raw', hread, hraw, -, hsame⟩ :=
    PatchTable.patchFile_effect PatchTable.wellFormed_phoenix rfl ofBytes_content h
  exact ⟨r, q, content', raw', h, hread, hraw,
    fun hsorted => not_namesEncodable_document (hsame.mp hsorted)⟩

end Lossy

end SchemaGraft
