import SchemaGraft.Proofs.Json.Reading
import SchemaGraft.Proofs.Json.RoundTrip
import SchemaGraft.Proofs.Schema.Records
import SchemaGraft.Schema.File

/-!
# Schemas That Are Written and Read Again

What a file of a schema denotes, and what becomes of a schema that is written in canonical form and read
again.

## Architecture

- **Contents**: `Json.ofBytes` is the JSON value of a file, `Schema.ofBytes_eq_ok_iff` the schema it
  describes.
- **Canonical form**: `Schema.bytes_eq_ok_iff`.
- **Round trip**: `Schema.ofBytes_of_bytes`, for every well-formed schema.
- **Loss**: `Schema.settled_ordered_iff` says which schemas come back as they were.
-/

namespace SchemaGraft

open Json (names lookup)

/-! ## Contents of Files -/

/-- The JSON value that the content of a file denotes. -/
def Json.ofBytes (content : Bytes) : Option Json :=
  match Utf8.decode content with
  | .ok cs => (Json.read (unifyNewlines cs)).toOption
  | .error _ => none

theorem Json.ofBytes_eq_some_iff {content : Bytes} {v : Json} :
    Json.ofBytes content = some v ↔
      ∃ cs, Utf8.decode content = .ok cs ∧ Json.read (unifyNewlines cs) = .ok v := by
  rw [Json.ofBytes]
  cases Utf8.decode content with
  | error f => simp
  | ok cs => cases h : Json.read (unifyNewlines cs) <;> simp [Except.toOption, h]

theorem Json.proper_of_ofBytes {content : Bytes} {v : Json} (h : Json.ofBytes content = some v) :
    v.Proper := by
  obtain ⟨cs, -, hread⟩ := Json.ofBytes_eq_some_iff.mp h
  exact Json.proper_of_read hread

theorem Json.moderate_of_ofBytes {content : Bytes} {v : Json} (h : Json.ofBytes content = some v) :
    v.Moderate := by
  obtain ⟨cs, -, hread⟩ := Json.ofBytes_eq_some_iff.mp h
  exact Json.moderate_of_read hread

/-- The canonical text of a value, as the content of a file, denotes the value. -/
theorem Json.ofBytes_canonical {j : Json} {content : Bytes} (hj : j.Settled)
    (hwithin : j.Within Json.maxDepth) (h : Utf8.encode j.canonical = .ok content) :
    Json.ofBytes content = some j.sorted := by
  obtain ⟨hencodable, rfl⟩ := Utf8.encode_ok_iff.mp h
  rw [Json.ofBytes_eq_some_iff]
  refine ⟨_, Utf8.decode_encodeChars _, ?_⟩
  rw [unifyNewlines_eq_self (Json.not_mem_canonical hj.finite)]
  exact Json.read_canonical ⟨hj, (Json.encodable_canonical hj.names).mp hencodable⟩ hwithin

namespace Schema

/-- A value that the check accepts has the members that every schema has. -/
theorem exists_required_of_check {ms : List (Text × Json)} {s : Schema}
    (h : Schema.check (.ofJson (.object ms)) = .ok s) :
    ∀ n ∈ requiredMembers, (lookup (Text.ofString n) ms).isSome := by
  rw [← Format.read_schema, Format.schema, Format.read_record_iff] at h
  obtain ⟨_, hms, -, h⟩ := h
  cases hms
  simp only [Part.readJson_pair_iff, Part.readJson_required_iff] at h
  obtain ⟨-, -, hinstructions, htypes, -⟩ := h
  -- a required member reads as one that was given
  have hpresent {α : Type} {F : Format α} {n : String} {a : α}
      (h : (Part.possible n F).readJson ms = .ok (some a)) :
      (lookup (Text.ofString n) ms).isSome := by
    rcases Part.readJson_possible_iff.mp h with ⟨-, h⟩ | ⟨u, _, hu, -, -⟩
    · cases h
    · rw [hu]; rfl
  simp only [requiredMembers, List.forall_mem_cons]
  exact ⟨hpresent hinstructions, hpresent htypes, by simp⟩

theorem ofJson_eq_ok_iff {source : Text} {raw : Json} {s : Schema} :
    ofJson source raw = .ok s ↔ Schema.check (.ofJson raw) = .ok s := by
  -- members that are lacking are told first; a document that checks lacks none
  cases raw with
  | object ms =>
    have hlacking : (requiredMembers.filter fun n => (lookup (Text.ofString n) ms).isNone) = [] ↔
        ∀ n ∈ requiredMembers, (lookup (Text.ofString n) ms).isSome := by
      simp [List.filter_eq_nil_iff, Option.isSome_iff_ne_none]
    rw [ofJson]
    split
    · split
      · next hcheck => rw [hcheck, Except.ok.injEq, Except.ok.injEq]
      · next hcheck => simp [hcheck, -Value.ofJson_object]
    · next h =>
      rw [List.isEmpty_iff, hlacking] at h
      simp only [reduceCtorEq, false_iff]
      exact fun hcheck => h (exists_required_of_check hcheck)
  | _ => simp [ofJson, Schema.check, Check.record, Value.ofJson, Checked.fail]

/-- A file that denotes a value describes what is made of the value. -/
theorem ofBytes_eq_ofJson {source : Text} {content : Bytes} {raw : Json}
    (h : Json.ofBytes content = some raw) : ofBytes source content = ofJson source raw := by
  obtain ⟨cs, hcs, hread⟩ := Json.ofBytes_eq_some_iff.mp h
  rw [ofBytes, hcs]
  dsimp only
  rw [hread]

/-- A file describes the schema that the check makes of its value. -/
theorem ofBytes_eq_ok_iff {source : Text} {content : Bytes} {s : Schema} :
    ofBytes source content = .ok s ↔
      ∃ raw, Json.ofBytes content = some raw ∧ Schema.check (.ofJson raw) = .ok s := by
  simp only [Json.ofBytes_eq_some_iff]
  rw [ofBytes]
  constructor
  · intro h
    -- bytes are decoded and parsed, and only then is there a document to check
    split at h
    · cases h
    · next cs hcs =>
      split at h
      · next raw hraw => exact ⟨raw, ⟨cs, hcs, hraw⟩, ofJson_eq_ok_iff.mp h⟩
      all_goals cases h
  · rintro ⟨raw, ⟨cs, hcs, hraw⟩, h⟩
    rw [hcs]
    dsimp only
    rw [hraw]
    exact ofJson_eq_ok_iff.mpr h

/-- What a schema must be like to come back when it has been written. -/
def WellFormed (s : Schema) : Prop :=
  Format.schema.WellFormed s

theorem wellFormed_of_check {raw : Json} {s : Schema} (hraw : raw.Proper)
    (h : Schema.check (.ofJson raw) = .ok s) : s.WellFormed :=
  Format.lawful_schema.wellFormed hraw h

/-- Schemas that are read from files are well formed. -/
theorem wellFormed_of_ofBytes {source : Text} {content : Bytes} {s : Schema}
    (h : ofBytes source content = .ok s) : s.WellFormed := by
  obtain ⟨raw, hraw, hcheck⟩ := ofBytes_eq_ok_iff.mp h
  exact wellFormed_of_check (Json.proper_of_ofBytes hraw) hcheck

/-! ## Canonical Form -/

theorem canonical_eq_ok_iff {s : Schema} {t : Text} :
    s.canonical = .ok t ↔ ∃ j, s.plain = .ok j ∧ j.canonical = t :=
  Except.bind_pure_eq_ok_iff

theorem bytes_eq_ok_iff {s : Schema} {content : Bytes} :
    s.bytes = .ok content ↔ ∃ t, s.canonical = .ok t ∧ Utf8.encode t = .ok content := by
  rw [bytes, text]
  cases s.canonical with
  | error f => simp
  | ok t =>
    dsimp only
    rw [Except.ok_bind]
    cases h : Utf8.encode t with
    | error f => simp [h]
    | ok bs => simp [h, Except.pure_eq_ok]

/-! ## Round Trip -/

/-- What comes back when a schema has been written; the order of members is that of their names. -/
theorem check_sorted {s : Schema} (hs : s.WellFormed) {j : Json} (h : s.plain = .ok j) :
    j.Settled ∧ j.Within Json.maxDepth ∧
      ∃ s', Schema.check (.ofJson j.sorted) = .ok s' ∧ s'.ordered = s.settled.ordered ∧
        ∃ j', s'.plain = .ok j' ∧ j'.sorted = j.sorted := by
  rw [← Format.write_schema] at h
  obtain ⟨hsettled, hwithin, hread, hwrite⟩ := Format.lawful_schema.comesBack hs h
  -- the text has the members in order, and reading does not depend on it
  have hsorted := (Json.sorted_sorted j).symm
  have hreads := Format.lawful_schema.orderless hsettled.proper hsorted
  rw [hread] at hreads
  obtain ⟨s', hs', hordered⟩ := hreads.exists_ok
  have hrespelled : Json.Respelled True j j.sorted :=
    ⟨Json.namesApart_of_namesEncodable hsettled.proper hsettled.names, fun _ => hsettled.names,
      hsettled.moderate, hsorted⟩
  have hwrites := Format.lawful_schema.alike hrespelled hread hs'
  rw [Format.Alike, hwrite] at hwrites
  obtain ⟨j', hj', hjj'⟩ := hwrites.exists_ok
  rw [Format.ordered_schema, Format.ordered_schema, Format.settled_schema] at hordered
  rw [Format.write_schema] at hj'
  exact ⟨hsettled, hwithin.mono (by decide), s', hs', hordered.symm, j', hj', hjj'.symm⟩

/-- **A schema that is written in canonical form is read again**, and has the same canonical form. -/
theorem ofBytes_of_bytes {s : Schema} (hs : s.WellFormed) {t : Text} {content : Bytes}
    (ht : s.canonical = .ok t) (h : Utf8.encode t = .ok content) (source : Text) :
    ∃ s', ofBytes source content = .ok s' ∧ s'.canonical = .ok t ∧
      s'.ordered = s.settled.ordered := by
  obtain ⟨j, hj, rfl⟩ := canonical_eq_ok_iff.mp ht
  obtain ⟨hsettled, hwithin, s', hs', hordered, j', hj', hsorted⟩ := check_sorted hs hj
  refine ⟨s', ?_, ?_, hordered⟩
  · exact ofBytes_eq_ok_iff.mpr ⟨_, Json.ofBytes_canonical hsettled hwithin h, hs'⟩
  · exact canonical_eq_ok_iff.mpr ⟨j', hj', by rw [Json.canonical, Json.canonical, hsorted]⟩

/-! ## Loss -/

/-- **A schema whose numbers are finite comes back as it was exactly when no name of a member holds a lone
surrogate.** -/
theorem settled_ordered_iff {raw : Json} {s : Schema} {t : Text} (hraw : raw.Proper)
    (h : Schema.check (.ofJson raw) = .ok s) (hfinite : s.Finite) (ht : s.canonical = .ok t) :
    s.settled.ordered = s.ordered ↔ raw.NamesEncodable := by
  obtain ⟨j, hj, rfl⟩ := canonical_eq_ok_iff.mp ht
  rw [← Format.write_schema] at hj
  constructor
  · -- what is written has encodable names, and so has every document of an equal schema
    intro hordered
    obtain ⟨hsettled, -, hread, -⟩ :=
      Format.lawful_schema.comesBack (wellFormed_of_check hraw h) hj
    refine Format.lawful_schema.sameNames hread h ?_ hsettled.proper hraw hsettled.names
    rwa [Format.ordered_schema, Format.ordered_schema, Format.settled_schema]
  · intro hnames
    have hfinite := Format.lawful_schema.finite h (Format.finite_schema hfinite) hraw
    rw [← Format.settled_schema, Format.lawful_schema.kept hraw hnames hfinite h hj]

end Schema

end SchemaGraft
