import Mathlib.Tactic
import SchemaGraft.Proofs.Json.Editing
import SchemaGraft.Proofs.Schema.RoundTrip
import SchemaGraft.Proofs.Validation.Integers

/-!
# The Grammar of Schemas

The JSON values that describe a schema, given by a grammar that does not speak of checks.

## Architecture

- **Grammar**: `Json.IsSchema` and its parts, over the texts that are accepted as names, versions, types and
  keys of mappings.  The members of records always have names that can be encoded.  Which texts denote integers
  is said by `Check.Denotes`.
- **Acceptance**: `Accepts` ties a check to its part of the grammar, with one lemma for each way in which
  checks are put together.
- **Repetition**: `Schema.issues_of_repeated`, what is reported of instructions whose names repeat.
- **Main result**: `Schema.accepts_exactly`.
-/

namespace SchemaGraft

open Json (names mapValues lookup)

/-! ## Grammar -/

namespace Json

/-- A text that is accepted. -/
def IsText (ok : Text → Prop) : Json → Prop
  | .text t => ok t
  | _ => False

/-- An object with any members, whose names are accepted. -/
def IsMapping (ok : Text → Prop) : Json → Prop
  | .object ms => ∀ n ∈ names ms, ok n
  | _ => False

/-- Null, or a value of the given kind. -/
def IsOptional (p : Json → Prop) (v : Json) : Prop :=
  v = .null ∨ p v

/-- A list whose items are of the given kind. -/
def IsListOf (p : Json → Prop) : Json → Prop
  | .list items => ∀ v ∈ items, p v
  | _ => False

/-- An object whose names can be encoded and whose members are as described. -/
def IsRecord (p : List (Text × Json) → Prop) : Json → Prop
  | .object ms => (∀ n ∈ names ms, n.Encodable) ∧ p ms
  | _ => False

/-- There is a member of the name, and it is of the given kind. -/
def Requires (name : String) (p : Json → Prop) (ms : List (Text × Json)) : Prop :=
  ∃ v, lookup (Text.ofString name) ms = some v ∧ p v

/-- If there is a member of the name, it is of the given kind. -/
def Allows (name : String) (p : Json → Prop) (ms : List (Text × Json)) : Prop :=
  ∀ v, lookup (Text.ofString name) ms = some v → p v

/-- A value that is converted to an integer: an integer or a truth value, a number that is an integer strictly
within 64 bits, or a text that denotes an integer. -/
def IsInteger : Json → Prop
  | .int _ | .bool _ => True
  | .float x => ∃ n, x.toInt? = some n ∧ -0x8000000000000000 < n ∧ n < 0x8000000000000000
  | .text t => ∃ n, Check.Denotes t n
  | _ => False

variable (ok : Text → Prop)

/-- The type of an argument: a tag or a description. -/
def IsType (v : Json) : Prop :=
  v.IsText ok ∨ v.IsMapping ok

def IsArgument : Json → Prop :=
  IsRecord fun ms => Requires "name" (IsText ok) ms ∧ Requires "type" (IsType ok) ms

def IsInstruction : Json → Prop :=
  IsRecord fun ms => Requires "name" (IsText ok) ms ∧ Allows "args" (IsListOf (IsArgument ok)) ms

def IsTypeDef : Json → Prop :=
  IsRecord (Requires "name" (IsText ok))

def IsErrorDef : Json → Prop :=
  IsRecord fun ms => Allows "code" (IsOptional IsInteger) ms ∧ Requires "name" (IsText ok) ms

/-- The names of the instructions in a list. -/
def instructionNames : Json → List Text
  | .list items => items.filterMap (textAt "name")
  | _ => []

/-- A list of instructions with pairwise different names. -/
def IsInstructions (v : Json) : Prop :=
  v.IsListOf (IsInstruction ok) ∧ v.instructionNames.Nodup

/-- A schema. -/
def IsSchema : Json → Prop :=
  IsRecord fun ms =>
    Allows "version" (IsOptional (IsText ok)) ms ∧ Allows "name" (IsOptional (IsText ok)) ms ∧
      Requires "instructions" (IsInstructions ok) ms ∧ Requires "types" (IsListOf (IsTypeDef ok)) ms ∧
      Allows "accounts" (IsListOf (IsMapping ok)) ms ∧ Allows "errors" (IsListOf (IsErrorDef ok)) ms

end Json

/-! ## Acceptance -/

/-- The check accepts the values of the given kind, and no others. -/
def Accepts {α : Type} (check : Value → Checked α) (p : Json → Prop) : Prop :=
  ∀ v : Json, (∃ a, check (.ofJson v) = .ok a) ↔ p v

/-- The check of the members of a record accepts the members that are as described. -/
def AcceptsMembers {α : Type} (check : List (Scalar × Value) → Checked α)
    (p : List (Text × Json) → Prop) : Prop :=
  ∀ ms : List (Text × Json),
    (∃ a, check (TypeRef.entries (mapValues Value.ofJson ms)) = .ok a) ↔ p ms

section

variable {α β : Type} {p : Json → Prop}

/-- A text is a text. -/
theorem accepts_text : Accepts Check.text (Json.IsText fun _ => True) := by
  intro v
  simp only [Check.text_eq_ok_iff]
  cases v <;> simp [Json.IsText]

/-- Whatever is a mapping is accepted as one. -/
theorem accepts_dictionary : Accepts Check.dictionary (Json.IsMapping fun _ => True) := by
  intro v
  simp only [Check.dictionary_eq_ok_iff]
  cases v <;> simp [Json.IsMapping]

theorem accepts_integer : Accepts Check.integer Json.IsInteger := by
  intro v
  cases v with
  | float x => simp [Json.IsInteger, Value.ofJson, Check.integer, Check.integerOfFloat_eq_ok_iff]
  | text t => simp [Json.IsInteger, Value.ofJson, Check.integer, Check.integerOfText_eq_ok_iff]
  | _ => simp [Json.IsInteger, Value.ofJson, Check.integer, Checked.fail]

/-- What may be null is null or accepted as something else. -/
theorem Accepts.optional {check : Value → Checked α} (h : Accepts check p) :
    Accepts (Check.optional check) (Json.IsOptional p) := by
  intro v
  simp only [Check.optional_eq_ok_iff, Json.IsOptional, ← h v]
  by_cases hv : v = .null
  · simp [hv]
  · simp [hv]

/-- A list is accepted when each item is. -/
theorem Accepts.list {check : Value → Checked α} (h : Accepts check p) :
    Accepts (Check.list check) (Json.IsListOf p) := by
  intro v
  simp only [Check.list_eq_ok_iff]
  cases v with
  | list items =>
    have hitems : (∃ as, List.Forall₂ (fun v a => check (.ofJson v) = .ok a) items as) ↔
        ∀ v ∈ items, p v := by
      simp only [← Except.mapM_eq_ok_iff, Except.exists_mapM_iff, h _]
    simpa [Json.IsListOf] using hitems
  | _ => simp [Json.IsListOf]

/-- A required member has to be there, and be accepted. -/
theorem AcceptsMembers.required {check : Value → Checked α} (h : Accepts check p) (name : String) :
    AcceptsMembers (fun es => Check.required es name check) (Json.Requires name p) := by
  intro ms
  simp only [Check.required_eq_ok_iff, Json.Requires, ← h _]
  rw [exists_comm]
  simp only [exists_and_left]

/-- A possible member is accepted if it is there. -/
theorem AcceptsMembers.possible {check : Value → Checked α} (h : Accepts check p) (name : String) :
    AcceptsMembers (fun es => Check.possible es name check) (Json.Allows name p) := by
  intro ms
  simp only [Check.possible_eq_ok_iff, Json.Allows, ← h _]
  -- a member that is left out is accepted; otherwise its value decides
  cases lookup (Text.ofString name) ms with
  | none =>
    have hnone : ∃ o : Option α, Option.Rel (fun v a => check (.ofJson v) = .ok a) none o :=
      ⟨none, .none⟩
    simpa using hnone
  | some v =>
    simp only [Option.some.injEq, forall_eq']
    constructor
    · rintro ⟨o, ho⟩
      cases ho with
      | some h => exact ⟨_, h⟩
    · rintro ⟨a, ha⟩
      exact ⟨some a, .some ha⟩

/-- Members of two kinds are checked apart from each other. -/
theorem AcceptsMembers.both {check : List (Scalar × Value) → Checked α}
    {check' : List (Scalar × Value) → Checked β} {q q' : List (Text × Json) → Prop}
    (h : AcceptsMembers check q) (h' : AcceptsMembers check' q') :
    AcceptsMembers (fun es => Checked.both (check es) (check' es)) fun ms => q ms ∧ q' ms := by
  intro ms
  simp only [Checked.both_eq_ok_iff, ← h ms, ← h' ms]
  constructor
  · rintro ⟨r, h, h'⟩
    exact ⟨⟨_, h⟩, _, h'⟩
  · rintro ⟨⟨a, h⟩, b, h'⟩
    exact ⟨(a, b), h, h'⟩

/-- The members beyond the declared ones are not restricted. -/
theorem AcceptsMembers.withExtras {check : List (Scalar × Value) → Checked α}
    {q : List (Text × Json) → Prop} (h : AcceptsMembers check q) (declared : List String) :
    AcceptsMembers (fun es => Checked.both (check es) (Check.extras declared es)) q := by
  intro ms
  simp only [Checked.both_eq_ok_iff, Check.extras_entries, ← h ms]
  constructor
  · rintro ⟨r, h, -⟩
    exact ⟨_, h⟩
  · rintro ⟨a, h⟩
    exact ⟨(a, _), h, rfl⟩

/-- A record is accepted when its names can be encoded and its members are accepted. -/
theorem AcceptsMembers.record {check : List (Scalar × Value) → Checked α}
    {q : List (Text × Json) → Prop} (h : AcceptsMembers check q) (kind : String) (f : α → β) :
    Accepts (fun v => do
      let es ← Check.record kind v
      Check.readable es ((check es).map f)) (Json.IsRecord q) := by
  intro v
  simp only [Except.bind_eq_ok_iff, Check.record_eq_ok_iff]
  -- only a mapping is a record; its names have to be encodable and its members accepted
  cases v with
  | object ms =>
    rw [Json.IsRecord, ← h ms]
    constructor
    · rintro ⟨b, es, ⟨_, hms, rfl⟩, hb⟩
      cases hms
      obtain ⟨hnames, hb⟩ := Check.readable_eq_ok_iff.mp hb
      obtain ⟨a, ha, -⟩ := Except.map_eq_ok_iff.mp hb
      exact ⟨hnames, a, ha⟩
    · rintro ⟨hnames, a, ha⟩
      exact ⟨f a, _, ⟨ms, rfl, rfl⟩,
        Check.readable_eq_ok_iff.mpr ⟨hnames, Except.map_eq_ok_iff.mpr ⟨a, ha, rfl⟩⟩⟩
  | _ => simp [Json.IsRecord]

/-! ## Records -/

/-- A type is a text or a mapping. -/
theorem accepts_typeRef : Accepts TypeRef.check (Json.IsType fun _ => True) := by
  intro v
  rw [Json.IsType, ← accepts_text v, ← accepts_dictionary v, TypeRef.check]
  cases Check.text (.ofJson v) with
  | ok t => simp
  | error is =>
    cases Check.dictionary (.ofJson v) with
    | ok ms => simp
    | error js => simp [Checked.both, Checked.under, Except.map]

theorem accepts_argument : Accepts Argument.check (Json.IsArgument fun _ => True) :=
  ((AcceptsMembers.required accepts_text "name").both
    ((AcceptsMembers.required accepts_typeRef "type").withExtras _)).record _ _

theorem accepts_instruction : Accepts Instruction.check (Json.IsInstruction fun _ => True) :=
  ((AcceptsMembers.required accepts_text "name").both
    ((AcceptsMembers.possible accepts_argument.list "args").withExtras _)).record _ _

theorem accepts_typeDef : Accepts TypeDef.check (Json.IsTypeDef fun _ => True) :=
  ((AcceptsMembers.required accepts_text "name").withExtras _).record _ _

theorem accepts_errorDef : Accepts ErrorDef.check (Json.IsErrorDef fun _ => True) :=
  ((AcceptsMembers.possible accepts_integer.optional "code").both
    ((AcceptsMembers.required accepts_text "name").withExtras _)).record _ _

/-- The name of an instruction is the text that its document holds under `name`. -/
theorem Instruction.textAt_of_check {v : Json} {ix : Instruction}
    (h : Instruction.check (.ofJson v) = .ok ix) : v.textAt "name" = some ix.name := by
  rw [← Format.read_instruction, Format.instruction, Format.read_record_iff] at h
  obtain ⟨ms, rfl, -, h⟩ := h
  obtain ⟨hname, -⟩ := Part.readJson_pair_iff.mp h
  rw [Json.textAt, Part.readJson_text_iff.mp hname]
  rfl

/-- The names of instructions are the texts under `name` in the document. -/
theorem instructionNames_of_check {v : Json} {ixs : List Instruction}
    (h : Check.list Instruction.check (.ofJson v) = .ok ixs) :
    v.instructionNames = ixs.map (·.name) := by
  obtain ⟨items, rfl, hitems⟩ := Check.list_eq_ok_iff.mp h
  rw [Json.instructionNames]
  clear h
  induction hitems with
  | nil => rfl
  | cons hhead _ ih =>
    rw [List.filterMap_cons, Instruction.textAt_of_check hhead, ih, List.map_cons]

/-- Instructions are accepted when each of them is and the texts under `name` are distinct. -/
theorem accepts_instructions :
    Accepts Schema.checkInstructions (Json.IsInstructions fun _ => True) := by
  intro v
  rw [Json.IsInstructions, ← accepts_instruction.list v]
  simp only [Format.checkInstructions_eq_ok_iff]
  constructor
  · rintro ⟨ixs, h, hnodup⟩
    exact ⟨⟨ixs, h⟩, by rwa [instructionNames_of_check h]⟩
  · rintro ⟨⟨ixs, h⟩, hnodup⟩
    exact ⟨ixs, h, by rwa [← instructionNames_of_check h]⟩

/-- **The check of schemas accepts the grammar.** -/
theorem accepts_schema : Accepts Schema.check (Json.IsSchema fun _ => True) :=
  ((AcceptsMembers.possible accepts_text.optional "version").both <|
    (AcceptsMembers.possible accepts_text.optional "name").both <|
    (AcceptsMembers.required accepts_instructions "instructions").both <|
    (AcceptsMembers.required accepts_typeDef.list "types").both <|
    (AcceptsMembers.possible accepts_dictionary.list "accounts").both <|
    (AcceptsMembers.possible accepts_errorDef.list "errors").withExtras _).record _ _

end

/-! ## Repetition -/

/-- The first repeated name is the first that occurs among the names before it. -/
theorem firstRepeated?_eq_some_iff {seen ns : List Text} {n : Text} :
    firstRepeated? seen ns = some n ↔ ∃ before after, ns = before ++ n :: after ∧
      (before.Nodup ∧ ∀ m ∈ before, m ∉ seen) ∧ (n ∈ seen ∨ n ∈ before) := by
  induction ns generalizing seen with
  | nil => simp [firstRepeated?]
  | cons m rest ih =>
    rw [firstRepeated?]
    -- the first name is the repeated one, or one more that has been seen
    by_cases hm : m ∈ seen
    · rw [if_pos hm, Option.some.injEq]
      constructor
      · rintro rfl
        exact ⟨[], rest, rfl, by simp, .inl hm⟩
      · rintro ⟨before, after, hns, ⟨-, hseen⟩, -⟩
        cases before with
        | nil => exact (List.cons.inj hns).1
        | cons k before =>
          obtain ⟨rfl, -⟩ := List.cons.inj hns
          exact absurd hm (hseen m (List.mem_cons_self ..))
    · rw [if_neg hm, ih]
      constructor
      · rintro ⟨before, after, rfl, ⟨hnodup, hseen⟩, hn⟩
        refine ⟨m :: before, after, rfl, ⟨?_, ?_⟩, ?_⟩
        · exact List.nodup_cons.mpr ⟨fun h => hseen m h (List.mem_cons_self ..), hnodup⟩
        · exact List.forall_mem_cons.mpr
            ⟨hm, fun k hk h => hseen k hk (List.mem_cons_of_mem _ h)⟩
        · simp only [List.mem_cons] at hn ⊢
          tauto
      · rintro ⟨before, after, hns, ⟨hnodup, hseen⟩, hn⟩
        cases before with
        | nil =>
          obtain ⟨rfl, -⟩ := List.cons.inj hns
          simp [hm] at hn
        | cons k before =>
          obtain ⟨rfl, hrest⟩ := List.cons.inj hns
          obtain ⟨hk, hnodup⟩ := List.nodup_cons.mp hnodup
          refine ⟨before, after, hrest, ⟨hnodup, fun j hj h => ?_⟩, ?_⟩
          · rcases List.mem_cons.mp h with rfl | h
            · exact hk hj
            · exact hseen j (List.mem_cons_of_mem _ hj) h
          · simp only [List.mem_cons] at hn ⊢
            tauto

namespace Checked

variable {α β : Type}

/-- The issues of a check whose place starts with the given step. -/
def issuesAt (step : Step) : Checked α → List Issue
  | .ok _ => []
  | .error issues => issues.filter fun i => i.place.head? = some step

/-- Issues of two checks are reported one after the other. -/
theorem issuesAt_both (step : Step) (x : Checked α) (y : Checked β) :
    issuesAt step (both x y) = issuesAt step x ++ issuesAt step y := by
  cases x <;> cases y <;> simp [both, issuesAt]

/-- What is made of the outcome has no part in the issues. -/
theorem issuesAt_map (step : Step) (f : α → β) (x : Checked α) :
    issuesAt step (x.map f) = issuesAt step x := by
  cases x <;> rfl

/-- The issues of one member are not those of another. -/
theorem issuesAt_under (step step' : Step) (x : Checked α) (h : step ≠ step') :
    issuesAt step (under step' x) = [] := by
  cases x with
  | ok a => rfl
  | error issues =>
    rw [under, issuesAt, List.filter_map]
    simp [Function.comp_def, Ne.symm h]

theorem issuesAt_required {step : Step} {check : Value → Checked α} {name : String}
    (h : step ≠ .field name) (es : List (Scalar × Value)) :
    issuesAt step (Check.required es name check) = [] :=
  issuesAt_under step _ _ h

/-- A member that is not there has no issues. -/
theorem issuesAt_possible {step : Step} {check : Value → Checked α} {name : String}
    (h : step ≠ .field name) (es : List (Scalar × Value)) :
    issuesAt step (Check.possible es name check) = [] := by
  rw [Check.possible]
  split
  · rw [issuesAt_map, issuesAt_under step _ _ h]
  · rfl

end Checked

namespace Schema

/-- Instructions that are all right on their own but repeat a name have the first repeated name as their
only issue. -/
theorem checkInstructions_of_repeated {v : Json} (hv : v.IsListOf (Json.IsInstruction fun _ => True))
    {before after : List Text} {n : Text} (hnames : v.instructionNames = before ++ n :: after)
    (hbefore : before.Nodup) (hn : n ∈ before) :
    checkInstructions (.ofJson v) = Checked.fail (.duplicateInstruction n) := by
  obtain ⟨ixs, hixs⟩ := (accepts_instruction.list v).mpr hv
  have hrepeated : firstRepeated? [] (ixs.map (·.name)) = some n := by
    rw [← instructionNames_of_check hixs, firstRepeated?_eq_some_iff]
    exact ⟨before, after, hnames, ⟨hbefore, by simp⟩, .inr hn⟩
  rw [checkInstructions, hixs, Except.ok_bind, hrepeated]

/-- What the check of schemas reports of the instructions is what their own check reports. -/
theorem issuesAt_instructions {ms : List (Text × Json)} (hms : ∀ n ∈ names ms, n.Encodable) {v : Json}
    (hv : lookup (Text.ofString "instructions") ms = some v) :
    Checked.issuesAt (.field "instructions") (Schema.check (.ofJson (.object ms))) =
      Checked.issuesAt (.field "instructions")
        (Checked.under (.field "instructions") (checkInstructions (.ofJson v))) := by
  have hreadable : ¬Check.hasLoneSurrogate (TypeRef.entries (mapValues Value.ofJson ms)) = true := by
    rw [Bool.not_eq_true, Check.hasLoneSurrogate_entries, Json.names_mapValues]
    exact hms
  have hmember := Check.member?_entries "instructions" ms
  rw [hv, Option.map_some] at hmember
  rw [Schema.check, Value.ofJson_object, Check.record, Except.ok_bind, Check.readable,
    if_neg hreadable]
  simp only [Checked.issuesAt_map, Checked.issuesAt_both]
  -- the issues of all other members are at other places
  have htypes : Checked.issuesAt (.field "instructions") (Check.required
      (TypeRef.entries (mapValues Value.ofJson ms)) "types" (Check.list TypeDef.check)) = [] :=
    Checked.issuesAt_required (by decide) _
  rw [Checked.issuesAt_possible (by decide), Checked.issuesAt_possible (by decide), htypes,
    Checked.issuesAt_possible (by decide), Checked.issuesAt_possible (by decide),
    Check.extras_entries, Check.required, hmember]
  simp [Checked.issuesAt]

/-! ## Main Result -/

/-- Whatever is wrong with a value, it is malformed. -/
theorem ofJson_eq_error {source : Text} {raw : Json} {f : Fault} (h : ofJson source raw = .error f) :
    ∃ g, f = malformed source g := by
  -- whatever is wrong with a document, the fault is that of a malformed one
  cases raw with
  | object ms =>
    rw [ofJson] at h
    split at h
    · split at h
      · cases h
      · cases h
        exact ⟨_, rfl⟩
    · cases h
      exact ⟨_, rfl⟩
  | _ =>
    cases h
    exact ⟨_, rfl⟩

/-- **A JSON value is accepted as a schema exactly when it is in the grammar.**  Of texts and of the keys of
mappings the grammar asks nothing; the names of the members of records must be such that they can be
encoded.  Everything else is malformed, with the given source.  When the instructions are all right on
their own but names repeat, what is reported of them is the first name that occurs a second time. -/
theorem accepts_exactly (source : Text) (raw : Json) :
    ((∃ s, ofJson source raw = .ok s) ↔ raw.IsSchema fun _ => True) ∧
      (∀ f, ofJson source raw = .error f → ∃ g, f = malformed source g) ∧
      ∀ (ms : List (Text × Json)) (v : Json) (before after : List Text) (n : Text),
        raw = .object ms → (∀ n ∈ names ms, n.Encodable) →
        (lookup (Text.ofString "types") ms).isSome →
        lookup (Text.ofString "instructions") ms = some v →
        v.IsListOf (Json.IsInstruction fun _ => True) →
        v.instructionNames = before ++ n :: after → before.Nodup → n ∈ before →
        ∃ issues, ofJson source raw = .error (malformed source (.invalid issues)) ∧
          issues.filter (fun i => i.place.head? = some (.field "instructions")) =
            [⟨[.field "instructions"], .duplicateInstruction n⟩] := by
  refine ⟨?_, fun f => ofJson_eq_error, ?_⟩
  · simp only [ofJson_eq_ok_iff]
    exact accepts_schema raw
  · rintro ms v before after n rfl hencodable htypes hv hinstructions hnames hbefore hn
    have hissues := issuesAt_instructions hencodable hv
    rw [checkInstructions_of_repeated hinstructions hnames hbefore hn] at hissues
    -- both members that must be there are there, so that the check is made
    have hlacking : (requiredMembers.filter fun n => (lookup (Text.ofString n) ms).isNone) = [] := by
      rw [requiredMembers]
      simp [hv, Option.isSome_iff_ne_none.mp htypes]
    rw [ofJson, hlacking, List.isEmpty_nil, if_pos rfl]
    cases hcheck : Schema.check (.ofJson (.object ms)) with
    | ok s =>
      rw [hcheck] at hissues
      cases hissues
    | error issues =>
      rw [hcheck] at hissues
      exact ⟨issues, rfl, hissues⟩

end Schema

/-! ## Two Documents -/

namespace Repeated

/-- A document in which the third instruction has the name of the first. -/
def document : Json :=
  .object [("instructions", .list [.object [("name", .text "A")], .object [("name", .text "B")],
    .object [("name", .text "A")]]), ("types", .list [])]

/-- Of the three instructions, which are all right on their own, the repeated name is reported. -/
theorem accepts_exactly_repeated : ∃ issues,
    Schema.ofJson "idl.json" document = .error (Schema.malformed "idl.json" (.invalid issues)) ∧
      issues.filter (fun i => i.place.head? = some (.field "instructions")) =
        [⟨[.field "instructions"], .duplicateInstruction "A"⟩] := by
  have hinstruction (name : String) :
      (Json.object [("name", .text name)]).IsInstruction fun _ => True := by
    refine ⟨?_, ⟨.text name, rfl, trivial⟩, fun v hv => ?_⟩
    · simp [names, Text.encodable_ofString]
    · cases hv
  refine (Schema.accepts_exactly "idl.json" document).2.2 _ _ ["A", "B"] [] "A" rfl ?_ rfl rfl ?_ rfl
    (by decide) (by decide)
  · simp [names, Text.encodable_ofString]
  · simp [Json.IsListOf, hinstruction]

end Repeated

namespace Surrogate

/-- A document in which the name of an instruction is a lone surrogate. -/
def document : Json :=
  .object [("instructions", .list [.object [("name", .text [.surrogate (Fin.last _)])]]), ("types", .list [])]

/-- A lone surrogate in a name does not make a document malformed. -/
theorem accepts_surrogate : ¬((∃ s, Schema.ofJson "idl.json" document = .ok s) ↔
    document.IsSchema Text.Encodable) := by
  intro h
  obtain ⟨-, -, -, ⟨v, hv, hinstructions, -⟩, -⟩ := h.mp ⟨_, rfl⟩
  cases hv
  obtain ⟨-, ⟨name, hname, hencodable⟩, -⟩ := hinstructions _ (List.mem_cons_self ..)
  cases hname
  simp [Json.IsText, Text.Encodable, Codepoint.isSurrogate] at hencodable

end Surrogate

end SchemaGraft
