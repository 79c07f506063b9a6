import SchemaGraft.Proofs.Json.Limits
import SchemaGraft.Proofs.Run.Settled

/-!
# How Loading Fails

Loading a schema file is meant to fail in one way only: as a malformed schema at the path of the file.  It
does, for every path that can be one of a file and every content within the limits of the reader.  Beyond
these limits it lets through the faults of the reader.

## Architecture

- **Paths**: `Path.Usable`; `FileTree.find_refuses_iff` says which paths are refused without a look at the
  files.
- **Outcomes**: `Schema.LoadsOrRefuses`, and `Schema.loadsOrRefuses_or_unforeseen`.
- **Main result**: `Schema.load_fails_one_way`.
-/

namespace SchemaGraft

/-! ## Paths -/

/-- The code point has a byte form in the name of a file: all but some of the lone surrogates have. -/
def Utf8.hasPathForm : Codepoint → Bool
  | .scalar _ => true
  | .surrogate o => (escapedByte? o).isSome

/-- A path that can be one of a file: it can be encoded, and holds no null character. -/
structure Path.Usable (p : Path) : Prop where
  encodable : ∀ c ∈ p.text, Utf8.hasPathForm c = true
  noNull : '\x00' ∉ p.text.scalars

/-- The bytes of the characters beyond the first all have their top bit set. -/
theorem Utf8.zero_mem_encodeChar {c : Char} : 0 ∈ encodeChar c ↔ c = '\x00' := by
  have hbyte {n : ℕ} (hlo : 0 < n) (hhi : n < 256) : (0 : UInt8) ≠ n.toUInt8 := by
    intro h
    have hn := congrArg UInt8.toNat h
    rw [toNat_toUInt8 hhi] at hn
    exact hlo.ne hn
  constructor
  · intro h
    have hvalid := toNat_valid c
    rw [encodeChar] at h
    -- by the number of bytes; those of a character that takes several are all positive
    split at h
    · by_contra hc
      have hpos : 0 < c.toNat := Nat.pos_of_ne_zero fun hzero => hc (Char.toNat_inj.mp hzero)
      exact hbyte hpos (by omega) (List.mem_singleton.mp h)
    · exfalso
      split at h
      · rcases List.mem_pair.mp h with h | h <;> exact hbyte (by omega) (by omega) h
      · split at h
        all_goals simp only [List.mem_cons, List.not_mem_nil, or_false] at h
        · rcases h with h | h | h <;> exact hbyte (by omega) (by omega) h
        · rcases h with h | h | h | h <;> exact hbyte (by omega) (by omega) h
  · rintro rfl
    decide

/-- A surrogate of a path stands for a byte from `0x80` on. -/
theorem Utf8.ne_zero_of_escapedByte? {o : Fin 2048} {b : UInt8} (h : escapedByte? o = some b) : b ≠ 0 := by
  rw [escapedByte?] at h
  split at h
  · next hrange =>
    intro hzero
    have hvalue := congrArg UInt8.toNat ((Option.some.inj h).trans hzero)
    rw [toNat_toUInt8 (by omega), UInt8.toNat_zero] at hvalue
    omega
  · cases h

/-- A path is encoded when all its code points have a byte form, and null bytes come from null characters. -/
theorem Utf8.encodePathFrom_cases (position : ℕ) (t : Text) :
    (∃ bs, encodePathFrom position t = .ok bs ∧ (∀ c ∈ t, hasPathForm c = true) ∧
        (0 ∈ bs ↔ '\x00' ∈ t.scalars)) ∨
      (∃ f, encodePathFrom position t = .error f) ∧ ¬∀ c ∈ t, hasPathForm c = true := by
  -- on the text: a surrogate has a byte if it stands for one, and it is not the null byte
  induction t generalizing position with
  | nil => exact .inl ⟨[], rfl, by simp, by simp⟩
  | cons c rest ih =>
    have hcons : (∀ d ∈ c :: rest, hasPathForm d = true) ↔
        hasPathForm c = true ∧ ∀ d ∈ rest, hasPathForm d = true := List.forall_mem_cons
    cases c with
    | scalar c =>
      rw [encodePathFrom, hcons]
      rcases ih (position + 1) with ⟨bs, hbs, hforms, hzero⟩ | ⟨⟨f, hf⟩, hforms⟩
      · refine .inl ⟨encodeChar c ++ bs, by rw [hbs]; rfl, ⟨rfl, hforms⟩, ?_⟩
        rw [List.mem_append, zero_mem_encodeChar, Text.scalars_cons, List.mem_cons, hzero, eq_comm]
      · exact .inr ⟨⟨f, by rw [hf]; rfl⟩, fun h => hforms h.2⟩
    | surrogate o =>
      rw [encodePathFrom, hcons, hasPathForm]
      cases hbyte : escapedByte? o with
      | none => exact .inr ⟨⟨_, rfl⟩, fun h => Bool.noConfusion h.1⟩
      | some b =>
        dsimp only
        rcases ih (position + 1) with ⟨bs, hbs, hforms, hzero⟩ | ⟨⟨f, hf⟩, hforms⟩
        · refine .inl ⟨b :: bs, by rw [hbs]; rfl, ⟨rfl, hforms⟩, ?_⟩
          have hscalars : Text.scalars (.surrogate o :: rest) = Text.scalars rest := rfl
          rw [hscalars, List.mem_cons, hzero]
          exact or_iff_right (ne_zero_of_escapedByte? hbyte).symm
        · exact .inr ⟨⟨f, by rw [hf]; rfl⟩, fun h => hforms h.2⟩

/-- A path is refused without a look at the files exactly when it cannot be one of a file. -/
theorem FileTree.find_refuses_iff {t : FileTree} {p : Path} :
    (∃ f, t.find p = .error f ∧ ∀ e name, f ≠ .system e name) ↔ ¬p.Usable := by
  rw [find, Utf8.encodePath]
  -- without bytes, or with a null byte among them, no path is looked up
  rcases Utf8.encodePathFrom_cases 0 p.text with ⟨bs, hbs, hforms, hzero⟩ | ⟨⟨f, hf⟩, hforms⟩
  · rw [hbs]
    dsimp only
    split
    · next hnull =>
      have hnot : ¬p.Usable := fun h => h.noNull (hzero.mp (List.contains_iff_mem.mp hnull))
      simp [hnot]
    · next hnull =>
      have husable : p.Usable := ⟨hforms, fun h => hnull (List.contains_iff_mem.mpr (hzero.mpr h))⟩
      simp only [husable, not_true_eq_false, iff_false]
      rintro ⟨f, hf, hother⟩
      split at hf
      · cases hf
        exact hother _ _ rfl
      · split at hf
        · cases hf
        · cases hf
          exact hother _ _ rfl
  · have hnot : ¬p.Usable := fun h => hforms h.encodable
    rw [hf]
    simp [hnot]

/-- A path that can be one of a file is refused for what the files are. -/
theorem FileTree.read_refuses_iff {t : FileTree} {p : Path} :
    (∃ f, t.read p = .error f ∧ ∀ e name, f ≠ .system e name) ↔ ¬p.Usable := by
  rw [← find_refuses_iff (t := t), read]
  -- a path that was found has bytes, and what is there is answered by the system
  cases hfind : t.find p with
  | error f => simp
  | ok place =>
    simp only [reduceCtorEq, false_and, exists_false, iff_false]
    rintro ⟨f, hf, hother⟩
    split at hf
    · split at hf
      · cases hf
      · cases hf
        exact hother _ _ rfl
    · cases hf
      exact hother _ _ rfl
    · cases hf
      exact hother _ _ rfl
    · next hfind' => cases hfind'

namespace Schema

/-! ## Outcomes -/

/-- A schema, or the refusal of the file at the path as malformed. -/
inductive LoadsOrRefuses (p : Path) : Except Fault Schema → Prop where
  | loads (s : Schema) : LoadsOrRefuses p (.ok s)
  | refuses (f : SchemaFault) : LoadsOrRefuses p (.error (malformed p.text f))

theorem LoadsOrRefuses.isForeseen {p : Path} {f : Fault} (h : LoadsOrRefuses p (.error f)) :
    f.isForeseen = true := by
  cases h
  rfl

theorem loadsOrRefuses_ofJson (p : Path) (raw : Json) : LoadsOrRefuses p (ofJson p.text raw) := by
  cases raw with
  | object ms =>
    rw [ofJson]
    split
    · split
      · exact .loads _
      · exact .refuses _
    · exact .refuses _
  | _ => exact .refuses _

/-- What loading does not refuse as malformed is a fault that is not foreseen. -/
theorem loadsOrRefuses_or_unforeseen (p : Path) (w : World) :
    LoadsOrRefuses p (perform (load p) w).1 ∨
      ∃ f, f.isForeseen = false ∧ (perform (load p) w).1 = .error f := by
  -- either the file cannot be read, or its content is decoded, parsed and checked
  cases hread : w.files.read p with
  | error f =>
    rw [perform_load_of_read_eq_error hread]
    cases f with
    | system e name => cases e <;> exact .inl (.refuses _)
    | nullByte => exact .inr ⟨_, rfl, rfl⟩
    | unencodable f => exact .inr ⟨_, rfl, rfl⟩
  | ok content =>
    rw [perform_load_of_read hread, ofBytes]
    dsimp only
    split
    · exact .inl (.refuses _)
    · split
      · exact .inl (loadsOrRefuses_ofJson p _)
      · exact .inl (.refuses _)
      · exact .inr ⟨_, rfl, rfl⟩
      · exact .inr ⟨_, rfl, rfl⟩

/-- A path that can be one of a file and a content within the limits of the reader break nothing. -/
theorem not_loadBreaks {p : Path} {t : FileTree} (husable : p.Usable)
    (hmodest : ∀ content cs, t.read p = .ok content → Utf8.decode content = .ok cs →
      Json.Modest (unifyNewlines cs)) (f : Fault) : ¬LoadBreaks p t f := by
  rintro (⟨hread, hunusable⟩ | ⟨hread, hdecode, hjson⟩ | ⟨hread, hdecode, hjson⟩)
  · exact FileTree.read_refuses_iff.mp ⟨_, hread, hunusable⟩ husable
  all_goals
    rcases Json.read_of_modest (hmodest _ _ hread hdecode) with ⟨v, h⟩ | ⟨fault, h⟩ <;>
      cases hjson.symm.trans h

/-! ## Main Result -/

/-- **Loading fails in one way**: whatever the files are, it changes nothing, and loads the schema or
refuses the file as malformed unless it breaks, with the fault that breaks it.  It does not break when the
path can be one of a file and the content is within the limits of the reader; a path that cannot be one of a
file always breaks it. -/
theorem load_fails_one_way (p : Path) (w : World) :
    (perform (load p) w).2 = w ∧
      (LoadsOrRefuses p (perform (load p) w).1 ↔ ∀ f, ¬LoadBreaks p w.files f) ∧
      (∀ f, LoadBreaks p w.files f ↔ f.isForeseen = false ∧ (perform (load p) w).1 = .error f) ∧
      ((∃ f, LoadBreaks p w.files (.access f)) ↔ ¬p.Usable) ∧
      (p.Usable →
        (∀ content cs, w.files.read p = .ok content → Utf8.decode content = .ok cs →
          Json.Modest (unifyNewlines cs)) →
        LoadsOrRefuses p (perform (load p) w).1) := by
  have hbreaks (f : Fault) := loadBreaks_iff (p := p) (w := w) (f := f)
  -- each break has an unforeseen fault, and what loads or is refused has none
  have hexact : LoadsOrRefuses p (perform (load p) w).1 ↔ ∀ f, ¬LoadBreaks p w.files f := by
    constructor
    · intro h f hf
      obtain ⟨hunforeseen, hfault⟩ := (hbreaks f).mp hf
      rw [hfault] at h
      rw [h.isForeseen] at hunforeseen
      cases hunforeseen
    · intro hnone
      rcases loadsOrRefuses_or_unforeseen p w with h | ⟨f, hf⟩
      · exact h
      · exact absurd ((hbreaks f).mpr hf) (hnone f)
  refine ⟨keeps_load p w, hexact, hbreaks, ?_, ?_⟩
  · rw [← FileTree.read_refuses_iff (t := w.files)]
    constructor
    · rintro ⟨f, ⟨hread, hunusable⟩⟩
      exact ⟨f, hread, hunusable⟩
    · rintro ⟨f, hread, hunusable⟩
      exact ⟨f, .path hread hunusable⟩
  · exact fun husable hmodest => hexact.mpr (not_loadBreaks husable hmodest)

end Schema

/-! ## A Number That Is Too Long -/

namespace Overlong

/-- A document with an integer of 4301 digits. -/
def document : List Char :=
  "\x7b\"instructions\":[],\"types\":[],\"x\":".toList ++ List.replicate 4301 '1' ++ ['\x7d']

/-- A world of a file with this document, and of an empty one. -/
def world : World where
  files :=
    { home := []
      entries :=
        [(["idl.json"], .file (Utf8.encodeChars document)), (["empty.json"], .file [])] }

/-- The path of the file. -/
def path : Path :=
  ⟨.relative, ["idl.json"]⟩

/-- The path of the empty file. -/
def emptyPath : Path :=
  ⟨.relative, ["empty.json"]⟩

theorem read_document :
    Json.read (unifyNewlines document) = .error (.longInteger 4301) := by
  rw [← Except.map_eq_error_iff (f := fun _ => ())]
  decide +kernel

theorem loadBreaks_document : Schema.LoadBreaks path world.files (.longInteger 4301) :=
  .longInteger rfl (Utf8.decode_encodeChars document) read_document

/-- Loading lets through that the number is too long, while it refuses the empty file. -/
theorem load_stopped :
    (perform (Schema.load path) world).1 = .error (.longInteger 4301) ∧
      ¬Schema.LoadsOrRefuses path (perform (Schema.load path) world).1 ∧
      Schema.LoadsOrRefuses emptyPath (perform (Schema.load emptyPath) world).1 := by
  obtain ⟨-, hexact, hbreaks, -⟩ := Schema.load_fails_one_way path world
  obtain ⟨-, -, -, -, hrefuses⟩ := Schema.load_fails_one_way emptyPath world
  refine ⟨((hbreaks _).mp loadBreaks_document).2, fun h => hexact.mp h _ loadBreaks_document, ?_⟩
  refine hrefuses ⟨by decide, by decide⟩ fun content cs hread hdecode => ?_
  cases hread
  cases hdecode
  exact Json.modest_of_length (by decide)

end Overlong

end SchemaGraft
