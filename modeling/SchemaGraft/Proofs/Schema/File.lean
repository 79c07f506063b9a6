import Mathlib
import SchemaGraft.Proofs.Schema.RoundTrip
import SchemaGraft.Proofs.World.FileTree
import SchemaGraft.Proofs.World.Performing

/-!
# Loading and Saving

What loading a schema file gives, when saving a schema touches the file, and what the file holds
afterwards.

## Architecture

- **Loading**: `Schema.perform_load_eq_ok_iff`.
- **Saving**: `Schema.perform_save_of_read` for a file that can be read, with
  `Schema.rewritten_of_perform_save` and `Schema.files_of_failed_save` for what it leaves.
- **Round trip**: `Schema.canonical_round_trip`.
-/

namespace SchemaGraft

namespace Schema

/-! ## Loading -/

/-- Loading a file that can be read gives what its content describes. -/
theorem perform_load_of_read {p : Path} {w : World} {content : Bytes}
    (h : w.files.read p = .ok content) :
    perform (load p) w = (ofBytes p.text content, w) := by
  rw [load, perform_bind, perform_get]
  dsimp only
  rw [h]
  dsimp only
  cases ofBytes p.text content <;> rfl

/-- Loading succeeds when the file can be read and describes a schema; it changes nothing. -/
theorem perform_load_eq_ok_iff {p : Path} {w w' : World} {s : Schema} :
    perform (load p) w = (.ok s, w') ↔
      (∃ content, w.files.read p = .ok content ∧ ofBytes p.text content = .ok s) ∧ w = w' := by
  rw [load, perform_bind, perform_get]
  dsimp only
  cases w.files.read p with
  | error f => simp
  | ok content =>
    dsimp only
    cases h : ofBytes p.text content with
    | error f => simp [h]
    | ok s' => simp [h]

/-! ## Saving -/

/-- A file that can be read is written unless it has the content already. -/
theorem store_of_read {t : FileTree} {p : Path} {old : Bytes} (h : t.read p = .ok old)
    (content : Bytes) :
    store t p content =
      if old = content then (t, .ok false)
      else ((t.write p content).1, (t.write p content).2.map fun _ => true) := by
  rw [store, isStored, FileTree.isFile?_of_read h, Except.ok_bind, if_pos rfl, h]
  by_cases hold : old = content
  · simp [hold, Except.pure_eq_ok]
  · rw [if_neg hold]
    simp only [Except.ok_bind, Except.pure_eq_ok, beq_eq_false_iff_ne.mpr hold]

/-- A schema with canonical bytes is saved by storing them. -/
theorem perform_save_of_bytes {s : Schema} {content : Bytes} (h : s.bytes = .ok content) (p : Path)
    (w : World) :
    perform (s.save p) w =
      ((store w.files p content).2.mapError (unwritable p.text),
        { w with files := (store w.files p content).1 }) := by
  have hbytes : perform (liftM (m := Except Fault) (n := Action) s.bytes) w = (.ok content, w) := by
    rw [h]
    rfl
  rw [save, perform_bind, hbytes]
  dsimp only
  rw [perform_bind, perform_get]
  dsimp only
  rw [perform_bind, perform_modify]
  dsimp only
  -- what is stored is there either way; only the result differs
  cases (store w.files p content).2 <;> rfl

/-- A schema without canonical bytes is not saved, and its fault is that of the saving. -/
theorem perform_save_of_bytes_eq_error {s : Schema} {f : Fault} (h : s.bytes = .error f) (p : Path)
    (w : World) : perform (s.save p) w = (.error f, w) := by
  rw [save, h, perform_bind]
  rfl

/-- **Saving over a file that can be read** leaves it alone when it holds the canonical text, and otherwise
writes that text. -/
theorem perform_save_of_read {s : Schema} {p : Path} {w : World} {old content : Bytes}
    (hold : w.files.read p = .ok old) (hcontent : s.bytes = .ok content) :
    perform (s.save p) w =
      if old = content then (.ok false, w)
      else (((w.files.write p content).2.map fun _ => true).mapError (unwritable p.text),
        { w with files := (w.files.write p content).1 }) := by
  rw [perform_save_of_bytes hcontent, store_of_read hold]
  split <;> rfl

/-- Saving over a file that holds the canonical text changes nothing. -/
theorem perform_save_unchanged {s : Schema} {p : Path} {w : World} {content : Bytes}
    (hread : w.files.read p = .ok content) (hcontent : s.bytes = .ok content) :
    perform (s.save p) w = (.ok false, w) := by
  rw [perform_save_of_read hread hcontent, if_pos rfl]

/-- After saving over a file that can be read, nothing but the file has changed, and it holds the canonical
text. -/
theorem rewritten_of_perform_save {s : Schema} {p : Path} {w w' : World} {old content : Bytes}
    {changed : Bool} (hold : w.files.read p = .ok old) (hcontent : s.bytes = .ok content)
    (h : perform (s.save p) w = (.ok changed, w')) :
    FileTree.Rewritten p content w.files w'.files ∧ w'.trace = w.trace := by
  rw [perform_save_of_read hold hcontent] at h
  -- equal bytes are not written again
  split at h
  · next hsame =>
    cases h
    exact ⟨.refl (hsame ▸ hold), rfl⟩
  · rcases hwrite : w.files.write p content with ⟨files, f | _⟩
    · rw [hwrite] at h
      cases h
    · rw [hwrite] at h
      cases h
      exact ⟨.of_write hold hwrite, rfl⟩

/-- **When saving over a file that can be read fails**, nothing has changed, or the write was cut short and the
file holds a part of the canonical text. -/
theorem files_of_failed_save {s : Schema} {p : Path} {w w' : World} {old : Bytes} {f : Fault}
    (hold : w.files.read p = .ok old) (h : perform (s.save p) w = (.error f, w')) :
    w' = w ∨ f = .pipeline (.unwrittenSchema p.text .noSpace) ∧ w'.trace = w.trace ∧
      ∃ content, s.bytes = .ok content ∧
        w.files.write p content = (w'.files, .error (.system .noSpace p.text)) ∧
        ∃ n < content.length, FileTree.Rewritten p (content.take n) w.files w'.files := by
  cases hcontent : s.bytes with
  | error f' =>
    rw [perform_save_of_bytes_eq_error hcontent] at h
    cases h
    exact .inl rfl
  | ok content =>
    rw [perform_save_of_read hold hcontent] at h
    split at h
    · cases h
    · rcases hwrite : w.files.write p content with ⟨files, f' | _⟩
      · rw [hwrite] at h
        cases h
        -- a write that fails leaves the file alone, or a front part of the content in it
        rcases FileTree.Rewritten.of_failed_write hold hwrite with rfl | ⟨rfl, n, hn, hrewritten⟩
        · exact .inl rfl
        · exact .inr ⟨rfl, rfl, content, rfl, hwrite, n, hn, hrewritten⟩
      · rw [hwrite] at h
        cases h

/-! ## Round Trip -/

/-- **The canonical round trip.**  Take a file that loads as a schema with a canonical text that can be
encoded.  Every file that holds this text loads as a schema with the same canonical text.  If the numbers
of the schema are finite, the loaded one is the same schema exactly when no member name of the document,
at any level, holds a lone surrogate.  Saving the schema over its file leaves the file alone if it holds
the canonical text, and otherwise leaves exactly that text, unless the write fails. -/
theorem canonical_round_trip {w : World} {p : Path} {old : Bytes} {raw : Json} {s : Schema}
    {t : Text} (hold : w.files.read p = .ok old) (hraw : Json.ofBytes old = some raw)
    (hload : perform (load p) w = (.ok s, w)) (ht : s.canonical = .ok t)
    (hencodable : t.Encodable) :
    ∃ content, Utf8.encode t = .ok content ∧
      (∀ (w' : World) (p' : Path), w'.files.read p' = .ok content →
        ∃ s', perform (load p') w' = (.ok s', w') ∧ s'.canonical = .ok t ∧
          (s.Finite → (s'.ordered = s.ordered ↔ raw.NamesEncodable))) ∧
      if old = content then perform (s.save p) w = (.ok false, w)
      else match w.files.write p content with
        | (files, .ok ()) =>
          perform (s.save p) w = (.ok true, { w with files }) ∧ files.read p = .ok content
        | (files, .error f) =>
          perform (s.save p) w = (.error (unwritable p.text f), { w with files }) := by
  obtain ⟨⟨content', hcontent', hs⟩, -⟩ := perform_load_eq_ok_iff.mp hload
  cases hold.symm.trans hcontent'
  have hcontent := Utf8.encode_ok_iff.mpr ⟨hencodable, rfl⟩
  have hcheck : Schema.check (.ofJson raw) = .ok s := by
    obtain ⟨raw', hraw', hcheck⟩ := ofBytes_eq_ok_iff.mp hs
    cases hraw.symm.trans hraw'
    exact hcheck
  refine ⟨_, hcontent, fun w' p' hw' => ?_, ?_⟩
  · -- what comes back is the settled schema, and that is `s` when no name was replaced
    obtain ⟨s', hs', ht', hordered⟩ :=
      ofBytes_of_bytes (wellFormed_of_ofBytes hs) ht hcontent p'.text
    refine ⟨s', perform_load_eq_ok_iff.mpr ⟨⟨_, hw', hs'⟩, rfl⟩, ht', fun hfinite => ?_⟩
    rw [hordered]
    exact settled_ordered_iff (Json.proper_of_ofBytes hraw) hcheck hfinite ht
  · have hsave := perform_save_of_read hold (bytes_eq_ok_iff.mpr ⟨t, ht, hcontent⟩)
    split
    · next hsame => rw [hsave, if_pos hsame]
    · next hother =>
      rw [if_neg hother] at hsave
      split
      · next files hwrite =>
        rw [hwrite] at hsave
        exact ⟨hsave, (FileTree.Rewritten.of_write hold hwrite).read hold⟩
      · next files f hwrite =>
        rw [hwrite] at hsave
        exact hsave

end Schema

/-! ## A Document That Does Not Come Back -/

namespace Lossy

/-- A document in which the name of a member of an account is a lone surrogate. -/
def document : Json :=
  .object [("accounts", .list [.object [([.surrogate 0], .bool true)]]), ("instructions", .list []),
    ("types", .list [])]

/-- The schema of the document. -/
def schema : Schema where
  instructions := []
  types := []
  accounts := some [[([.surrogate 0], .scalar (.bool true))]]

/-- What the schema is written as. -/
def form : Json :=
  .object [("instructions", .list []), ("types", .list []),
    ("accounts", .list [.object [(Text.asName [.surrogate 0], .bool true)]])]

/-- A file that denotes the document. -/
def content : Bytes :=
  Utf8.encodeChars
    "\x7b\"accounts\":[\x7b\"\\ud800\":true\x7d],\"instructions\":[],\"types\":[]\x7d".toList

/-- A world of this file. -/
def world : World where
  files := { home := [], entries := [(["idl.json"], .file content)] }

/-- The path of the file. -/
def path : Path :=
  ⟨.relative, ["idl.json"]⟩

set_option maxRecDepth 10000 in
theorem ofBytes_content : Json.ofBytes content = some document := by
  cbv

theorem not_namesEncodable_document : ¬document.NamesEncodable := by
  simp [document, Json.NamesEncodable, Text.Encodable, Codepoint.isSurrogate]

theorem encodable_form : form.TextsEncodable ∧ form.NamesEncodable := by
  simp [form, Json.TextsEncodable, Json.NamesEncodable, Text.encodable_asName]
  exact ⟨trivial, trivial⟩

theorem finite_schema : schema.Finite := by
  constructor <;>
    simp [schema, Value.FiniteMembers, Value.Finite]

theorem load_world : perform (Schema.load path) world = (.ok schema, world) :=
  Schema.perform_load_eq_ok_iff.mpr
    ⟨⟨content, rfl, Schema.ofBytes_eq_ok_iff.mpr ⟨document, ofBytes_content, rfl⟩⟩, rfl⟩

theorem canonical_schema : schema.canonical = .ok form.canonical :=
  Schema.canonical_eq_ok_iff.mpr ⟨form, rfl, rfl⟩

/-- The canonical text of the schema loads as another schema. -/
theorem canonical_round_trip_fails :
    ∃ content, Utf8.encode form.canonical = .ok content ∧
      ∀ (w : World) (p : Path), w.files.read p = .ok content →
        ∃ s, perform (Schema.load p) w = (.ok s, w) ∧ s.canonical = .ok form.canonical ∧
          s.ordered ≠ schema.ordered := by
  obtain ⟨content, hcontent, hloads, -⟩ :=
    Schema.canonical_round_trip (w := world) (p := path) rfl ofBytes_content load_world
      canonical_schema ((Json.encodable_canonical encodable_form.2).mpr encodable_form.1)
  refine ⟨content, hcontent, fun w p hw => ?_⟩
  obtain ⟨s, hload, hcanonical, hsame⟩ := hloads w p hw
  refine ⟨s, hload, hcanonical, fun hordered => ?_⟩
  exact not_namesEncodable_document ((hsame finite_schema).mp hordered)

end Lossy

end SchemaGraft
