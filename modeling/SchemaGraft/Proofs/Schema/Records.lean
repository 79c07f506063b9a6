import SchemaGraft.Proofs.Schema.Joining

/-!
# The Records of a Schema

Each record of a schema is a lawful format: its check and its JSON form fit together as the laws say.

## Architecture

- **Traversal**: `Argument.rebuild` to `Schema.rebuild` replace the free mappings and the members beyond the
  declared ones of a record, wherever they are.
- **Formats**: `Format.argument` to `Format.schema`; each reads and writes as the record's own functions do.
- **Schemas**: `Format.lawful_schema`.
-/

namespace SchemaGraft

open Json (names mapValues)

/-! ## Traversal -/

section

variable (mapping extra : List (Text × Value) → List (Text × Value))

/-- The argument with new mappings and new extra members. -/
def Argument.rebuild (a : Argument) : Argument :=
  { a with type := a.type.mapMembers mapping, extra := extra a.extra }

/-- The instruction with new mappings and new extra members. -/
def Instruction.rebuild (ix : Instruction) : Instruction :=
  { ix with args := ix.args.map (List.map (Argument.rebuild mapping extra)), extra := extra ix.extra }

/-- The type with new extra members. -/
def TypeDef.rebuild (t : TypeDef) : TypeDef :=
  { t with extra := extra t.extra }

/-- The error with new extra members. -/
def ErrorDef.rebuild (e : ErrorDef) : ErrorDef :=
  { e with extra := extra e.extra }

/-- The schema with new mappings and new extra members. -/
def Schema.rebuild (s : Schema) : Schema :=
  { s with
    instructions := s.instructions.map (Instruction.rebuild mapping extra)
    types := s.types.map (TypeDef.rebuild extra)
    accounts := s.accounts.map (List.map mapping)
    errors := s.errors.map (List.map (ErrorDef.rebuild extra))
    extra := extra s.extra }

/-- What is rebuilt does not touch the names of the types. -/
@[simp] theorem Schema.typeNames_rebuild (s : Schema) :
    (s.rebuild mapping extra).typeNames = s.typeNames := by
  rw [typeNames, rebuild, List.map_map]
  rfl

end

/-- The schema with the entries of all its mappings in the order of their names.  Schemas that differ in
that order only are the same as data. -/
def Schema.ordered : Schema → Schema :=
  Schema.rebuild Value.orderedMembers Value.orderedMembers

/-- The argument that comes back when it has been written. -/
def Argument.settled : Argument → Argument :=
  Argument.rebuild Value.settledMembers (mapValues Value.settled)

/-- The schema that comes back when it has been written. -/
def Schema.settled : Schema → Schema :=
  Schema.rebuild Value.settledMembers (mapValues Value.settled)

/-- Does the schema hold finite numbers only? -/
structure Schema.Finite (s : Schema) : Prop where
  /-- In the arguments of its instructions. -/
  arguments : ∀ ix ∈ s.instructions, ∀ a ∈ ix.arguments,
    a.type.Finite ∧ Value.FiniteMembers a.extra
  /-- In what else its instructions hold. -/
  instructions : ∀ ix ∈ s.instructions, Value.FiniteMembers ix.extra
  /-- In its types. -/
  types : ∀ t ∈ s.types, Value.FiniteMembers t.extra
  /-- In its accounts. -/
  accounts : ∀ as ∈ s.accounts, ∀ a ∈ as, Value.FiniteMembers a
  /-- In its errors. -/
  errors : ∀ es ∈ s.errors, ∀ e ∈ es, Value.FiniteMembers e.extra
  /-- In what else it holds. -/
  extra : Value.FiniteMembers s.extra

namespace Format

open SchemaGraft.Part

/-! ## Arguments and Instructions -/

/-- Arguments. -/
def argument : Format Argument :=
  record "Argument"
    (pair (required "name" text) <| pair (required "type" typeRef) <| extras ["name", "type"])
    ⟨fun r => ⟨r.1, r.2.1, r.2.2⟩, fun a => (a.name, a.type, a.extra), fun _ => rfl, fun _ => rfl⟩

/-- The check of arguments is the reading side of their format. -/
theorem read_argument : argument.read = Argument.check := rfl

/-- Their JSON form is its writing side. -/
theorem write_argument (a : Argument) : argument.write a = a.plain := by
  simp [argument, record, pair, required, extras, plainGiven, Argument.plain, text, scalar, typeRef]

/-- Arguments keep the laws: no two of the parts claim the same member, and together they claim all. -/
theorem lawful_argument : argument.Lawful := by
  refine lawful_record (.pair (lawful_required _ lawful_text)
    (.pair (lawful_required _ lawful_typeRef) lawful_extras ?_) ?_) ?_
  -- each declared name is claimed by one part
  · intro n hn
    rw [beq_iff_eq.mp hn]
    rfl
  · intro n hn
    rw [beq_iff_eq.mp hn]
    rfl
  · intro n
    simp only [pair, required, extras, Check.isDeclared, List.any_cons, List.any_nil]
    cases n == Text.ofString "name" <;> cases n == Text.ofString "type" <;> rfl

/-- Instructions. -/
def instruction : Format Instruction :=
  record "Instruction"
    (pair (required "name" text) <| pair (possible "args" (list argument)) <|
      extras ["name", "args"])
    ⟨fun r => ⟨r.1, r.2.1, r.2.2⟩, fun ix => (ix.name, ix.args, ix.extra), fun _ => rfl, fun _ => rfl⟩

theorem read_instruction : instruction.read = Instruction.check := rfl

theorem write_instruction (ix : Instruction) : instruction.write ix = ix.plain := by
  simp [instruction, record, pair, required, possible, extras, plainGiven, Instruction.plain, text,
    scalar, list, funext write_argument]

/-- Instructions keep the laws for the same reason. -/
theorem lawful_instruction : instruction.Lawful := by
  refine lawful_record (.pair (lawful_required _ lawful_text)
    (.pair (lawful_possible _ lawful_argument.list) lawful_extras ?_) ?_) ?_
  · intro n hn
    rw [beq_iff_eq.mp hn]
    rfl
  · intro n hn
    rw [beq_iff_eq.mp hn]
    rfl
  · intro n
    simp only [pair, required, possible, extras, Check.isDeclared, List.any_cons, List.any_nil]
    cases n == Text.ofString "name" <;> cases n == Text.ofString "args" <;> rfl

/-! ## Types and Errors -/

/-- Types. -/
def typeDef : Format TypeDef :=
  record "TypeDef" (pair (required "name" text) <| extras ["name"])
    ⟨fun r => ⟨r.1, r.2⟩, fun t => (t.name, t.extra), fun _ => rfl, fun _ => rfl⟩

theorem write_typeDef (t : TypeDef) : typeDef.write t = t.plain := by
  simp [typeDef, record, pair, required, extras, plainGiven, TypeDef.plain, text, scalar]

/-- Types have a name, and all else about them is kept as it is. -/
theorem lawful_typeDef : typeDef.Lawful := by
  refine lawful_record (.pair (lawful_required _ lawful_text) lawful_extras ?_) ?_
  · intro n hn
    rw [beq_iff_eq.mp hn]
    rfl
  · intro n
    simp only [pair, required, extras, Check.isDeclared, List.any_cons, List.any_nil]
    cases n == Text.ofString "name" <;> rfl

/-- Errors. -/
def errorDef : Format ErrorDef :=
  record "ErrorDef"
    (pair (possible "code" code) <| pair (required "name" text) <| extras ["code", "name"])
    ⟨fun r => ⟨r.1, r.2.1, r.2.2⟩, fun e => (e.code, e.name, e.extra), fun _ => rfl, fun _ => rfl⟩

theorem write_errorDef (e : ErrorDef) : errorDef.write e = e.plain := by
  simp [errorDef, record, pair, required, possible, extras, plainGiven, ErrorDef.plain, text,
    scalar, code]

/-- The code of an error is an integer, which has no order of its own. -/
theorem ordered_errorDef (e : ErrorDef) :
    errorDef.ordered e = e.rebuild Value.orderedMembers := by
  show ErrorDef.mk (e.code.map id) e.name _ = _
  rw [Option.map_id]
  rfl

/-- Nor is there anything in a code that could be settled. -/
theorem settled_errorDef (e : ErrorDef) :
    errorDef.settled e = e.rebuild (mapValues Value.settled) := by
  show ErrorDef.mk (e.code.map id) e.name _ = _
  rw [Option.map_id]
  rfl

/-- Errors keep the laws, too, with a code that may be read from a text. -/
theorem lawful_errorDef : errorDef.Lawful := by
  refine lawful_record (.pair (lawful_possible _ lawful_code)
    (.pair (lawful_required _ lawful_text) lawful_extras ?_) ?_) ?_
  · intro n hn
    rw [beq_iff_eq.mp hn]
    rfl
  · intro n hn
    rw [beq_iff_eq.mp hn]
    rfl
  · intro n
    simp only [pair, required, possible, extras, Check.isDeclared, List.any_cons, List.any_nil]
    cases n == Text.ofString "code" <;> cases n == Text.ofString "name" <;> rfl

/-! ## Schemas -/

/-- No name is repeated when the names are distinct and none of them was seen before. -/
theorem firstRepeated?_eq_none_iff {seen ns : List Text} :
    firstRepeated? seen ns = none ↔ ns.Nodup ∧ ∀ n ∈ ns, n ∉ seen := by
  induction ns generalizing seen with
  | nil => simp [firstRepeated?]
  | cons n rest ih =>
    rw [firstRepeated?, List.nodup_cons, List.forall_mem_cons]
    split
    · next h => simp [h]
    · next h =>
      rw [ih]
      -- behind its first occurrence, a name has been seen
      simp only [List.mem_cons, not_or]
      constructor
      · rintro ⟨hnodup, hrest⟩
        exact ⟨⟨fun hn => (hrest n hn).1 rfl, hnodup⟩, h, fun m hm => (hrest m hm).2⟩
      · rintro ⟨⟨hn, hnodup⟩, -, hrest⟩
        exact ⟨hnodup, fun m hm => ⟨fun hmn => hn (hmn ▸ hm), hrest m hm⟩⟩

/-- Instructions are accepted when each of them is and no name is repeated. -/
theorem checkInstructions_eq_ok_iff {v : Value} {ixs : List Instruction} :
    Schema.checkInstructions v = .ok ixs ↔
      Check.list Instruction.check v = .ok ixs ∧ (ixs.map (·.name)).Nodup := by
  rw [Schema.checkInstructions, Except.bind_eq_ok_iff]
  constructor
  · rintro ⟨ixs', h, hok⟩
    -- the list is refused at the first name that is there twice
    split at hok
    · cases hok
    · next hnone =>
      cases hok
      exact ⟨h, (firstRepeated?_eq_none_iff.mp hnone).1⟩
  · rintro ⟨h, hnodup⟩
    have hnone : firstRepeated? [] (ixs.map (·.name)) = none :=
      firstRepeated?_eq_none_iff.mpr ⟨hnodup, by simp⟩
    refine ⟨ixs, h, ?_⟩
    rw [hnone]
    rfl

/-- Lists of instructions with different names. -/
def instructions : Format (List Instruction) :=
  (list instruction).restrict Schema.checkInstructions fun ixs => (ixs.map (·.name)).Nodup

/-- Reading and writing neither make nor hide a repeated name. -/
theorem lawful_instructions : instructions.Lawful := by
  apply Lawful.restrict lawful_instruction.list checkInstructions_eq_ok_iff
  · intro u v hu huv
    apply (lawful_instruction.list.orderless hu huv).bind
    intro ixs ixs' h
    -- the order of members does not change names, and so not the first repeated one
    have hnames (ixs : List Instruction) :
        ((list instruction).ordered ixs).map (·.name) = ixs.map (·.name) := List.map_map
    rw [← hnames ixs, h, hnames ixs']
    cases firstRepeated? [] (ixs'.map (·.name)) with
    | some n => exact .error rfl
    | none => exact .ok h
  · intro ixs hnodup
    rw [list, List.map_map]
    exact hnodup

/-- Schemas. -/
def schema : Format Schema :=
  record "Schema"
    (pair (possible "version" optionalText) <| pair (possible "name" optionalText) <|
      pair (required "instructions" instructions) <| pair (required "types" (list typeDef)) <|
      pair (possible "accounts" (list mapping)) <| pair (possible "errors" (list errorDef)) <|
      extras ["version", "name", "instructions", "types", "accounts", "errors"])
    { toFun := fun r => ⟨r.1, r.2.1, r.2.2.1, r.2.2.2.1, r.2.2.2.2.1, r.2.2.2.2.2.1, r.2.2.2.2.2.2⟩
      invFun := fun s => (s.version, s.name, s.instructions, s.types, s.accounts, s.errors, s.extra)
      left_inv := fun _ => rfl
      right_inv := fun _ => rfl }

theorem read_schema : schema.read = Schema.check := rfl

theorem write_schema (s : Schema) : schema.write s = s.plain := by
  simp [schema, record, pair, required, possible, extras, plainGiven, Schema.plain, optionalText,
    scalar, list, instructions, restrict, mapping, funext write_instruction, funext write_typeDef,
    funext write_errorDef, Except.pure_eq_ok]

/-- The order of a format of records is that of the records. -/
theorem ordered_schema (s : Schema) : schema.ordered s = s.ordered := by
  show Schema.mk (s.version.map id) (s.name.map id) _ _ _
    (s.errors.map (List.map errorDef.ordered)) _ = _
  rw [funext ordered_errorDef, Option.map_id]
  rfl

/-- So is what comes back of them. -/
theorem settled_schema (s : Schema) : schema.settled s = s.settled := by
  show Schema.mk (s.version.map id) (s.name.map id) _ _ _
    (s.errors.map (List.map errorDef.settled)) _ = _
  rw [funext settled_errorDef, Option.map_id]
  rfl

/-- A schema of finite numbers is one for its format as well. -/
theorem finite_schema {s : Schema} (h : s.Finite) : schema.Finite s := by
  refine ⟨fun _ _ => trivial, fun _ _ => trivial, fun ix hix => ⟨trivial, ?_, h.instructions ix hix⟩,
    fun t ht => ⟨trivial, h.types t ht⟩, h.accounts, fun es hes e he => ?_, h.extra⟩
  · intro args hargs a ha
    have hmem : a ∈ ix.arguments := by
      rw [Instruction.arguments, show ix.args = some args from hargs]
      exact ha
    exact ⟨trivial, h.arguments ix hix a hmem⟩
  · exact ⟨fun _ _ => trivial, trivial, h.errors es hes e he⟩

/-- **The check and the JSON form of schemas fit together.** -/
theorem lawful_schema : schema.Lawful := by
  refine lawful_record (.pair (lawful_possible _ lawful_optionalText)
    (.pair (lawful_possible _ lawful_optionalText)
    (.pair (lawful_required _ lawful_instructions) (.pair (lawful_required _ lawful_typeDef.list)
    (.pair (lawful_possible _ lawful_mapping.list) (.pair (lawful_possible _ lawful_errorDef.list)
    lawful_extras ?_) ?_) ?_) ?_) ?_) ?_) ?_
  all_goals intro n
  -- every name is claimed by some part: by the last one if it is not declared
  case refine_7 =>
    simp only [pair, required, possible, extras, Check.isDeclared, List.any_cons, List.any_nil,
      Bool.or_false]
    grind
  all_goals
    intro hn
    rw [beq_iff_eq.mp hn]
    rfl

/-! ## Conversions -/

/-- An argument is written in the form in which it was read. -/
theorem normal_argument : argument.normal = id := by
  rw [← Json.mapMembers_snd]
  refine congrArg Json.mapMembers (funext fun m => ?_)
  simp [pair, required, extras, text, scalar, typeRef]

theorem normal_instruction : instruction.normal = id := by
  rw [← Json.mapMembers_snd]
  refine congrArg Json.mapMembers (funext fun m => ?_)
  simp [pair, required, possible, extras, text, scalar, list, normal_argument]

theorem normal_typeDef : typeDef.normal = id := by
  rw [← Json.mapMembers_snd]
  refine congrArg Json.mapMembers (funext fun m => ?_)
  simp [pair, required, extras, text, scalar]

/-- Only the code of an error may be written in another form. -/
theorem normal_errorDef : errorDef.normal = Json.mapMember "code" integerForm := by
  refine congrArg Json.mapMembers (funext fun m => ?_)
  simp [pair, required, possible, extras, text, scalar, code]

/-- **The check of a schema converts the numbers of its errors, and nothing else.** -/
theorem normal_schema :
    schema.normal =
      Json.mapMember "errors" (Json.mapItems (Json.mapMember "code" integerForm)) := by
  refine congrArg Json.mapMembers (funext fun m => ?_)
  have herrors : ∀ n ∈ ["version", "name", "instructions", "types", "accounts"],
      Text.ofString "errors" ≠ Text.ofString n := by decide
  simp only [pair, required, possible, extras, optionalText, scalar, list, instructions, restrict,
    mapping, normal_instruction, normal_typeDef, normal_errorDef, Json.mapItems_id, id, beq_iff_eq]
  by_cases h : m.1 = Text.ofString "errors"
  · simp [h, herrors]
  · simp [h]

end Format

end SchemaGraft
