import SchemaGraft.Proofs.Config.Loading
import SchemaGraft.Proofs.Config.Shapes

/-!
# The Fields of a Configuration

Which documents are configurations, what the fields of one are, and what is found against the others.  Nothing in
a document is passed over: each of its keys names a field, which has its value, or is among the issues.

## Architecture

- **Fields**: `Config.fields` lists them with their shapes; `Config.Field.Holds` and `Config.Field.Misses` say
  what a document does with one of them.
- **Foreign keys**: `Config.foreignKeys` are the keys that name no field.
- **Documents**: `Config.Finds` joins what is found against the fields and the foreign keys, in order;
  `Config.meets_ofMembers` is about the check of a whole document.
- **Main result**: `Config.no_key_lost`.
-/

namespace SchemaGraft

namespace Config

/-! ## Fields -/

/-- A field of a configuration. -/
structure Field where
  name : String
  shape : Shape
  get : Config → shape.Carrier

/-- The fields, in the order in which they are declared. -/
def fields : List Field :=
  [⟨"program_name", .text, (·.programName)⟩, ⟨"crate_root", .text, (·.crateRoot)⟩,
    ⟨"idl_dir", .text, (·.idlDir)⟩, ⟨"sdk_dir", .text, (·.sdkDir)⟩,
    ⟨"extractor", .text, (·.extractor)⟩, ⟨"extractor_args", .texts, (·.extractorArgs)⟩,
    ⟨"generator", .text, (·.generator)⟩,
    ⟨"generator_command", .texts, (·.generatorCommand)⟩, ⟨"formatter", .orNull .texts, (·.formatter)⟩,
    ⟨"wait_for_formatter", .flag, (·.waitForFormatter)⟩, ⟨"patch_table", .orNull .text, (·.patchTable)⟩,
    ⟨"strict_coverage", .flag, (·.strictCoverage)⟩]

namespace Field

variable {f : Field} {ms : List (Scalar × Value)} {c : Config} {v : Value}

/-- The document gives the field a value. -/
def Given (f : Field) (ms : List (Scalar × Value)) (v : Value) : Prop :=
  (Scalar.text f.name, v) ∈ ms

/-- The field has the value that the document gives it, or its default. -/
def Holds (f : Field) (ms : List (Scalar × Value)) (c : Config) : Prop :=
  (∀ v, f.Given ms v → f.shape.Reads v (f.get c)) ∧ ((∀ v, ¬f.Given ms v) → f.get c = f.get {})

/-- The places in the document where the value of the field does not fit. -/
def Misses (f : Field) (ms : List (Scalar × Value)) (places : List (List Step)) : Prop :=
  (∃ v ps, f.Given ms v ∧ f.shape.Misses v ps ∧ places = ps.map (.field f.name :: ·)) ∨
    (∀ v, ¬f.Given ms v) ∧ places = []

/-- The values that the document gives the field all fit it. -/
def Fits (f : Field) (ms : List (Scalar × Value)) : Prop :=
  ∀ v, f.Given ms v → f.shape.Fits v

/-- What the check of the field gives. -/
def Read (f : Field) (ms : List (Scalar × Value)) : Option f.shape.Carrier → Prop
  | none => ∀ v, ¬f.Given ms v
  | some a => ∃ v, f.Given ms v ∧ f.shape.Reads v a

/-- As data, only a text is the same as a text. -/
theorem same_text_iff {k : Scalar} {t : Text} : k.same (.text t) = true ↔ k = .text t := by
  cases k with
  | float x => cases h : x.toInt? <;> simp [Scalar.same, Scalar.toInt?, h]
  | _ => simp [Scalar.same, Scalar.toInt?]

/-- A member is the value of an entry under its name. -/
theorem member?_eq_some_iff (hkeys : (textKeys ms).Nodup) {name : String} :
    Check.member? ms name = some v ↔ (Scalar.text name, v) ∈ ms := by
  unfold Check.member?
  induction ms with
  | nil => simp [Scalar.lookup]
  | cons m rest ih =>
    obtain ⟨k, w⟩ := m
    rw [Scalar.lookup]
    by_cases hk : k = .text (Text.ofString name)
    · subst hk
      rw [textKeys_cons_text, List.nodup_cons] at hkeys
      rw [if_pos (same_text_iff.2 rfl)]
      -- there is no second member of this name
      have hrest : (Scalar.text name, v) ∉ rest := fun h => hkeys.1 (mem_textKeys.2 ⟨_, h, rfl⟩)
      simp [hrest, eq_comm]
    · have hrest := hkeys.sublist ((List.sublist_cons_self (k, w) rest).filterMap _)
      rw [if_neg (mt same_text_iff.1 hk), ih hrest]
      simp [Ne.symm hk]

/-- A field that is given is read, or missed at its own place; one that is not given has no issues. -/
theorem meets_possible (hkeys : (textKeys ms).Nodup) (f : Field) :
    (Check.possible ms f.name f.shape.check).Meets (f.Read ms) fun is => f.Misses ms (is.map (·.place)) := by
  unfold Check.possible
  -- keys are distinct, so there is at most one member to check
  cases hmember : Check.member? ms f.name with
  | none =>
    have hnone (v : Value) : ¬f.Given ms v := fun hv => by
      cases hmember.symm.trans ((member?_eq_some_iff hkeys).2 hv)
    exact ⟨hnone, .inr ⟨hnone, rfl⟩⟩
  | some v =>
    have hgiven : f.Given ms v := (member?_eq_some_iff hkeys).1 hmember
    refine (((f.shape.meets_check v).under _).map fun a ha => ?_).mono (fun _ h => h) ?_
    · exact ⟨v, hgiven, ha⟩
    · rintro _ ⟨js, hjs, rfl⟩
      exact .inl ⟨v, _, hgiven, hjs, map_place_within _ js⟩

/-- A field that was read is held by the configuration. -/
theorem Read.holds (hkeys : (textKeys ms).Nodup) {o : Option f.shape.Carrier} (h : f.Read ms o)
    (hget : f.get c = o.getD (f.get {})) : f.Holds ms c := by
  cases o with
  | none => exact ⟨fun v hv => absurd hv (h v), fun _ => hget⟩
  | some a =>
    obtain ⟨v, hv, ha⟩ := h
    refine ⟨fun u hu => ?_, fun hnone => absurd hv (hnone v)⟩
    -- the document gives the field one value only
    have hsame := ((member?_eq_some_iff hkeys).2 hu).symm.trans ((member?_eq_some_iff hkeys).2 hv)
    cases hsame
    rw [hget]
    exact ha

/-- A field misses no place exactly when it fits. -/
theorem Misses.eq_nil_iff (hkeys : (textKeys ms).Nodup) {places : List (List Step)} (h : f.Misses ms places) :
    places = [] ↔ f.Fits ms := by
  rcases h with ⟨v, ps, hv, hps, rfl⟩ | ⟨hnone, rfl⟩
  · have hfits : f.Fits ms ↔ f.shape.Fits v := by
      refine ⟨fun h => h v hv, fun h u hu => ?_⟩
      cases ((member?_eq_some_iff hkeys).2 hu).symm.trans ((member?_eq_some_iff hkeys).2 hv)
      exact h
    rw [List.map_eq_nil_iff, hfits, hps.eq_nil_iff]
  · exact iff_of_true rfl fun v hv => absurd hv (hnone v)

end Field

/-! ## Foreign Keys -/

/-- The keys that are the name of no field. -/
def foreignKeys (ms : List (Scalar × Value)) : List Text :=
  (textKeys ms).filter fun k => !(fields.map fun f => Text.ofString f.name).contains k

/-- There are no foreign keys if each key names a field. -/
theorem foreignKeys_eq_nil_iff {ms : List (Scalar × Value)} :
    foreignKeys ms = [] ↔ ∀ k ∈ textKeys ms, ∃ f ∈ fields, k = Text.ofString f.name := by
  rw [foreignKeys, List.filter_eq_nil_iff]
  refine forall₂_congr fun k _ => ?_
  rw [Bool.not_eq_true', Bool.not_eq_false, List.contains_iff_mem, List.mem_map]
  exact exists_congr fun f => and_congr_right fun _ => eq_comm

/-- The issue of such a key. -/
def foreignIssue (k : Text) : Issue :=
  ⟨[.field k], .extraForbidden⟩

/-- Each foreign key is an issue, in the order of the document. -/
theorem meets_foreignMembers_go {ms : List (Scalar × Value)} (hkeys : hasTextKeys ms = true) :
    (foreignMembers.go ms).Meets (fun _ => True) (· = (textKeys ms).map foreignIssue) := by
  -- on the members: each of them gives an issue and none stops the check
  induction ms with
  | nil => exact ⟨trivial, rfl⟩
  | cons m rest ih =>
    obtain ⟨k, v⟩ := m
    cases k with
    | text t =>
      have hhead : (Checked.under (Check.keyStep (.text t)) (Checked.fail .extraForbidden) : Checked Unit).Meets
          (fun _ => True) (· = [foreignIssue t]) := ⟨by simp [Check.keyStep], rfl⟩
      unfold foreignMembers.go
      refine ((hhead.both (ih hkeys)).map fun _ _ => trivial).mono (fun _ h => h) ?_
      rintro _ ⟨_, _, rfl, rfl, rfl⟩
      rfl
    | _ => cases hkeys

/-- The keys that name no field are the foreign ones. -/
theorem textKeys_filter {ms : List (Scalar × Value)} (hkeys : hasTextKeys ms = true) :
    textKeys (ms.filter fun m => !(members.any fun n => m.1 == .text (Text.ofString n))) = foreignKeys ms := by
  unfold foreignKeys
  induction ms with
  | nil => rfl
  | cons m rest ih =>
    obtain ⟨k, v⟩ := m
    cases k with
    | text t =>
      -- the members of the configuration are named after its fields
      have hnames : (members.any fun n => Scalar.text t == .text (Text.ofString n)) =
          (fields.map fun f => Text.ofString f.name).contains t := by
        change _ = (members.map Text.ofString).contains t
        rw [Bool.eq_iff_iff, List.any_eq_true, List.contains_iff_mem, List.mem_map]
        refine exists_congr fun n => and_congr_right fun _ => ?_
        rw [beq_iff_eq, Scalar.text.injEq, eq_comm]
      rw [textKeys_cons_text, List.filter_cons, List.filter_cons, hnames]
      split
      · rw [textKeys_cons_text, ih hkeys]
      · exact ih hkeys
    | _ => cases hkeys

theorem meets_foreignMembers {ms : List (Scalar × Value)} (hkeys : hasTextKeys ms = true) :
    (foreignMembers ms).Meets (fun _ => True) (· = (foreignKeys ms).map foreignIssue) := by
  unfold foreignMembers
  rw [← textKeys_filter hkeys]
  refine meets_foreignMembers_go (List.all_eq_true.2 fun m hm => ?_)
  exact List.all_eq_true.1 hkeys m (List.mem_of_mem_filter hm)

/-! ## Documents -/

/-- What is found against some fields of a document, one after the other, and against its foreign keys. -/
def Finds (ms : List (Scalar × Value)) (fs : List Field) (issues : List Issue) : Prop :=
  ∃ found, List.Forall₂ (fun (f : Field) (is : List Issue) => f.Misses ms (is.map (·.place))) fs found ∧
    issues = found.flatten ++ (foreignKeys ms).map foreignIssue

/-- The check of one more field goes in front of those of the others. -/
theorem meets_cons {ms : List (Scalar × Value)} (hkeys : (textKeys ms).Nodup) (s : Shape) {name : String}
    {get : Config → s.Carrier} {β : Type} {y : Checked β} {R : β → Prop} {fs : List Field}
    (hy : y.Meets R (Finds ms fs)) :
    (Checked.both (Check.possible ms name s.check) y).Meets
      (fun r => Field.Read ⟨name, s, get⟩ ms r.1 ∧ R r.2) (Finds ms (⟨name, s, get⟩ :: fs)) := by
  refine ((Field.meets_possible hkeys ⟨name, s, get⟩).both hy).mono (fun _ h => h) ?_
  rintro _ ⟨js, _, hjs, ⟨found, hfound, rfl⟩, rfl⟩
  exact ⟨js :: found, .cons hjs hfound, by simp⟩

/-- A configuration holds each of its fields, or the issues are those of the fields and of the foreign keys.
-/
theorem meets_ofMembers {ms : List (Scalar × Value)} (hnodup : (textKeys ms).Nodup)
    (hkeys : hasTextKeys ms = true) (hreadable : Check.hasLoneSurrogate ms = false) :
    (ofMembers ms).Meets (fun c => ∀ f ∈ fields, f.Holds ms c) (Finds ms fields) := by
  have hforeign : (foreignMembers ms).Meets (fun _ => True) (Finds ms []) :=
    (meets_foreignMembers hkeys).mono (fun _ h => h) fun is his => ⟨[], .nil, his⟩
  change Checked.Meets (Check.readable ms _) _ _
  rw [Check.readable, hreadable]
  simp only [Bool.false_eq_true, if_false]
  -- what is found piles up field by field, on top of what is found against the foreign keys
  refine Checked.Meets.map (P := ?P) (Q := Finds ms fields) ?chain ?_
  case chain =>
    exact meets_cons hnodup .text <| meets_cons hnodup .text <| meets_cons hnodup .text <|
      meets_cons hnodup .text <| meets_cons hnodup .text <| meets_cons hnodup .texts <|
      meets_cons hnodup .text <| meets_cons hnodup .texts <| meets_cons hnodup (.orNull .texts) <|
      meets_cons hnodup .flag <| meets_cons hnodup (.orNull .text) <| meets_cons hnodup .flag hforeign
  -- one part for each field, and one for the foreign keys
  rintro ⟨o₁, o₂, o₃, o₄, o₅, o₆, o₇, o₈, o₉, o₁₀, o₁₁, o₁₂, u⟩
    ⟨h₁, h₂, h₃, h₄, h₅, h₆, h₇, h₈, h₉, h₁₀, h₁₁, h₁₂, -⟩
  simp only [fields, List.forall_mem_cons]
  exact ⟨h₁.holds hnodup rfl, h₂.holds hnodup rfl, h₃.holds hnodup rfl, h₄.holds hnodup rfl,
    h₅.holds hnodup rfl, h₆.holds hnodup rfl, h₇.holds hnodup rfl, h₈.holds hnodup rfl,
    h₉.holds hnodup rfl, h₁₀.holds hnodup rfl, h₁₁.holds hnodup rfl, h₁₂.holds hnodup rfl,
    List.forall_mem_nil _⟩

/-- Nothing is found exactly when there is no foreign key and every value fits. -/
theorem Finds.eq_nil_iff {ms : List (Scalar × Value)} (hnodup : (textKeys ms).Nodup) {fs : List Field}
    {issues : List Issue} (h : Finds ms fs issues) :
    issues = [] ↔ foreignKeys ms = [] ∧ ∀ f ∈ fs, f.Fits ms := by
  obtain ⟨found, hfound, rfl⟩ := h
  rw [List.append_eq_nil_iff, List.map_eq_nil_iff, and_comm]
  refine and_congr_right fun _ => ?_
  induction hfound with
  | nil => simp
  | cons hf _ ih =>
    rw [List.flatten_cons, List.append_eq_nil_iff, ih, List.forall_mem_cons, ← hf.eq_nil_iff hnodup,
      List.map_eq_nil_iff]

/-- The names of the fields can be encoded. -/
theorem encodable_of_foreignKeys {ms : List (Scalar × Value)} (h : foreignKeys ms = []) :
    ∀ k ∈ textKeys ms, k.Encodable := by
  have hnames : ∀ k ∈ fields.map fun f => Text.ofString f.name, k.Encodable := by
    decide
  intro k hk
  refine hnames k ?_
  simpa using List.filter_eq_nil_iff.1 h k hk

/-- Keys that can be encoded hold no lone surrogate. -/
theorem hasLoneSurrogate_eq_false_iff {ms : List (Scalar × Value)} :
    Check.hasLoneSurrogate ms = false ↔ ∀ k ∈ textKeys ms, k.Encodable := by
  -- on the members; a key that is no text hides nothing
  induction ms with
  | nil => exact iff_of_true rfl nofun
  | cons m rest ih =>
    obtain ⟨k, v⟩ := m
    cases k with
    | text t =>
      rw [textKeys_cons_text, List.forall_mem_cons, ← ih]
      simp [Check.hasLoneSurrogate, Text.Encodable]
    | _ => exact ih

/-- What loading gives for a file that holds a mapping with texts as its keys. -/
theorem perform_load_of_mapping {path : Option Text} {w : World} {cs : List Char} {ms : List (Scalar × Value)}
    (hread : w.files.read (source path w.files.home) = .ok (Utf8.encodeChars cs))
    (hmapping : DocumentKind.config.mapping (source path w.files.home) (unifyNewlines cs) = .ok ms)
    (hkeys : hasTextKeys ms = true) :
    perform (load path) w =
      ((ofMembers ms).mapError fun issues =>
        DocumentKind.config.fault (source path w.files.home) (.invalid issues), w) := by
  obtain ⟨otherwise, -, hload⟩ := perform_load path w
  obtain ⟨l, hfind, -⟩ := FileTree.read_eq_ok_iff.1 hread
  have hexists : w.files.exists? (source path w.files.home) = .ok true := by
    rw [FileTree.exists?, FileTree.holds, hfind]
  rw [hload]
  unfold Action.look loadFrom DocumentKind.load
  simp only [perform_bind, perform_get, hexists, perform_pure, if_true, DocumentKind.perform_readText, hread,
    Utf8.decode_encodeChars, Except.mapError, Except.map, hmapping, hkeys]
  cases ofMembers ms <;> rfl

/-- **No key is lost.**  Take a file that holds a mapping with texts as its keys.  Loading it changes nothing.  It
succeeds exactly when each key names a field and each value fits its field; then each field that is named has
the value of the document, and each other one its default.  Otherwise the issues name each value and each item
that does not fit, field by field in their order, and then each foreign key in the order of the document; but
where a key holds a lone surrogate, which no name of a field does, that is the only issue. -/
theorem no_key_lost {path : Option Text} {w : World} {cs : List Char} {ms : List (Scalar × Value)}
    (hread : w.files.read (source path w.files.home) = .ok (Utf8.encodeChars cs))
    (hmapping : DocumentKind.config.mapping (source path w.files.home) (unifyNewlines cs) = .ok ms)
    (hkeys : hasTextKeys ms = true) :
    (perform (load path) w).2 = w ∧ (textKeys ms).Nodup ∧
      ((∃ c, (perform (load path) w).1 = .ok c) ↔
        (∀ k ∈ textKeys ms, ∃ f ∈ fields, k = Text.ofString f.name) ∧ ∀ f ∈ fields, f.Fits ms) ∧
      (∀ c, (perform (load path) w).1 = .ok c → ∀ f ∈ fields, f.Holds ms c) ∧
      ((∀ c, (perform (load path) w).1 ≠ .ok c) → ∃ issues,
        (perform (load path) w).1 =
          .error (DocumentKind.config.fault (source path w.files.home) (.invalid issues)) ∧
        ((∀ k ∈ textKeys ms, k.Encodable) → Finds ms fields issues) ∧
        ((∃ k ∈ textKeys ms, ¬k.Encodable) → issues = [⟨[], .textUnicode⟩])) := by
  have hnodup := (DocumentKind.proper_of_mapping hmapping).1
  rw [perform_load_of_mapping hread hmapping hkeys, ← foreignKeys_eq_nil_iff]
  refine ⟨rfl, hnodup, ?_⟩
  by_cases hencodable : ∀ k ∈ textKeys ms, k.Encodable
  · have hmeets := meets_ofMembers hnodup hkeys (hasLoneSurrogate_eq_false_iff.2 hencodable)
    cases hcheck : ofMembers ms with
    | ok c =>
      rw [hcheck] at hmeets
      -- without issues, all keys are known and all fields fit
      refine ⟨iff_of_true ⟨c, rfl⟩ ((hmeets.2.eq_nil_iff hnodup).1 rfl), ?_, fun h => absurd rfl (h c)⟩
      rintro _ ⟨⟩
      exact hmeets.1
    | error issues =>
      rw [hcheck] at hmeets
      refine ⟨iff_of_false ?_ fun h => hmeets.1 ((hmeets.2.eq_nil_iff hnodup).2 h), ?_, ?_⟩
      · rintro ⟨c, ⟨⟩⟩
      · rintro c ⟨⟩
      exact fun _ => ⟨issues, rfl, fun _ => hmeets.2, fun ⟨k, hk, hlone⟩ => absurd (hencodable k hk) hlone⟩
  · -- the check of the document ends before it looks at any field
    have hcheck : ofMembers ms = .error [⟨[], .textUnicode⟩] := by
      change Check.readable ms _ = _
      rw [Check.readable, if_pos]
      · rfl
      · simpa using mt hasLoneSurrogate_eq_false_iff.1 hencodable
    rw [hcheck]
    refine ⟨iff_of_false ?_ fun h => hencodable (encodable_of_foreignKeys h.1), ?_, ?_⟩
    · rintro ⟨c, ⟨⟩⟩
    · rintro c ⟨⟩
    exact fun _ => ⟨_, rfl, fun h => absurd h hencodable, fun _ => rfl⟩

end Config

/-! ## Three Documents -/

namespace Mixed

/-- A document with values that do not fit, and with a key that is the name of no field. -/
def document : List Char :=
  "strict_coverage: maybe\nextra: x\nsdk_dir: 1\n".toList

/-- A document in which bytes stand for a text. -/
def binary : List Char :=
  "program_name: !!binary cGhv\n".toList

/-- A document with two foreign keys, one of them a lone surrogate. -/
def lone : List Char :=
  "\"\\ud800\": 1\nx: 2\n".toList

/-- A world of these documents. -/
def world : World where
  files :=
    { home := []
      entries :=
        [(["mixed.yml"], .file (Utf8.encodeChars document)), (["binary.yml"], .file (Utf8.encodeChars binary)),
          (["lone.yml"], .file (Utf8.encodeChars lone))] }

/-- The entries of a mapping whose values are all scalars. -/
def scalars? : Value → Option (List (Scalar × Scalar))
  | .object ms => ms.mapM fun m =>
    match m.2 with
    | .scalar s => some (m.1, s)
    | _ => none
  | _ => none

/-- A value that is a mapping of scalars is this mapping. -/
theorem eq_of_scalars? {v : Value} {ss : List (Scalar × Scalar)} (h : scalars? v = some ss) :
    v = .object (ss.map fun m => (m.1, .scalar m.2)) := by
  cases v with
  | object ms =>
    unfold scalars? at h
    -- the entries are taken one by one, and each has to hold a scalar
    induction ms generalizing ss with
    | nil =>
      cases h
      rfl
    | cons m rest ih =>
      obtain ⟨k, v⟩ := m
      cases v with
      | scalar s =>
        simp only [List.mapM_cons, Option.pure_def, Option.bind_eq_bind, Option.bind_some,
          Option.bind_eq_some_iff] at h
        obtain ⟨ts, hts, ⟨⟩⟩ := h
        cases ih hts
        rfl
      | _ => simp at h
  | _ => cases h

/-- A document of scalars holds their mapping. -/
theorem mapping_of_scalars? {cs : List Char} (ss : List (Scalar × Scalar))
    (h : (Yaml.load cs).toOption.bind scalars? = some ss) (p : Path) :
    DocumentKind.config.mapping p cs = .ok (ss.map fun m => (m.1, .scalar m.2)) := by
  unfold DocumentKind.mapping
  cases hload : Yaml.load cs with
  | error f =>
    rw [hload] at h
    cases h
  | ok v =>
    rw [hload] at h
    rw [eq_of_scalars? h]

/-- The members of the first document. -/
def members : List (Scalar × Scalar) :=
  [(.text "strict_coverage", .text "maybe"), (.text "extra", .text "x"), (.text "sdk_dir", .int 1)]

/-- All that is wrong with the first document is found, and what is found names the fields in their order, and then
the foreign key. -/
theorem no_key_lost_document :
    ∃ issues, (perform (Config.load (some "mixed.yml")) world).1 =
        .error (DocumentKind.config.fault (Path.ofText "mixed.yml") (.invalid issues)) ∧
      Config.Finds (members.map fun m => (m.1, .scalar m.2)) Config.fields issues := by
  obtain ⟨-, -, hsucceeds, -, hfails⟩ :=
    @Config.no_key_lost (some "mixed.yml") world document _ rfl
      (mapping_of_scalars? members (by decide +kernel) _) rfl
  -- `extra` is not among the members, so nothing is loaded
  have hforeign : ∀ c, (perform (Config.load (some "mixed.yml")) world).1 ≠ .ok c := by
    intro c hc
    obtain ⟨hknown, -⟩ := hsucceeds.1 ⟨c, hc⟩
    have hextra := hknown "extra" (by decide)
    revert hextra
    decide
  obtain ⟨issues, hload, hfinds, -⟩ := hfails hforeign
  exact ⟨issues, hload, hfinds (by decide)⟩

example :
    (match (perform (Config.load (some "mixed.yml")) world).1 with
      | .error (.pipeline (.document _ _ (.invalid issues))) => issues
      | _ => []) =
      [⟨[.field "sdk_dir"], .textType⟩, ⟨[.field "strict_coverage"], .boolParsing⟩,
        ⟨[.field "extra"], .extraForbidden⟩] := by
  decide +kernel

/-- Bytes are taken for a text, and a lone surrogate among the keys hides every other issue. -/
theorem bytes_taken_and_keys_hidden :
    (∃ c, (perform (Config.load (some "binary.yml")) world).1 = .ok c ∧ c.programName = "pho") ∧
      DocumentKind.config.mapping (Path.ofText "binary.yml") (unifyNewlines binary) =
        .ok [(.text "program_name", .scalar (.bytes [112, 104, 111]))] ∧
      (perform (Config.load (some "lone.yml")) world).1 =
        .error (DocumentKind.config.fault (Path.ofText "lone.yml") (.invalid [⟨[], .textUnicode⟩])) ∧
      DocumentKind.config.mapping (Path.ofText "lone.yml") (unifyNewlines lone) =
        .ok [(.text [.surrogate 0], .scalar (.int 1)), (.text "x", .scalar (.int 2))] := by
  have hbinary (p : Path) : DocumentKind.config.mapping p (unifyNewlines binary) =
      .ok [(.text "program_name", .scalar (.bytes [112, 104, 111]))] :=
    mapping_of_scalars? [(.text "program_name", .bytes [112, 104, 111])] (by decide +kernel) p
  have hlone (p : Path) : DocumentKind.config.mapping p (unifyNewlines lone) =
      .ok [(.text [.surrogate 0], .scalar (.int 1)), (.text "x", .scalar (.int 2))] :=
    mapping_of_scalars? [(.text [.surrogate 0], .int 1), (.text "x", .int 2)] (by decide +kernel) p
  refine ⟨?_, hbinary _, ?_, hlone _⟩
  · rw [@Config.perform_load_of_mapping _ _ binary _ rfl (hbinary _) rfl]
    exact ⟨_, rfl, rfl⟩
  · rw [@Config.perform_load_of_mapping _ _ lone _ rfl (hlone _) rfl]
    rfl

end Mixed

end SchemaGraft
