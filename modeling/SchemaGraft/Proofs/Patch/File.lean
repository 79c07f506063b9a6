import SchemaGraft.Patch.File
import SchemaGraft.Proofs.Patch.Notices
import SchemaGraft.Proofs.Schema.File

/-!
# Patching a File Twice

What it takes for a file to be patched, and what a second patch of the same file does: nothing.

## Architecture

- **Patches**: `PatchTable.perform_patching` for what a patch logs and raises.
- **Files**: `PatchTable.perform_updateFile_eq_ok_iff` and `PatchTable.perform_patchFile_eq_ok_iff` take the
  patching of a file apart.
- **Main result**: `PatchTable.patchFile_twice`.
-/

namespace SchemaGraft

namespace PatchTable

variable {t : PatchTable} {strict : Bool}

/-! ## Patches -/

/-- The outcome of a patch as an action, which a notice that cannot be shown ends. -/
def patchingOutcome (t : PatchTable) (strict : Bool) (s : Schema) : Except Fault (Schema × Report) :=
  if (t.patch strict s).1.all Notice.isPrintable then (t.patch strict s).2.mapError PatchFault.toFault
  else .error .unprintable

/-- What a patch logs and raises as an action. -/
theorem perform_patching (t : PatchTable) (strict : Bool) (s : Schema) (w : World) :
    perform (t.patching strict s) w = (t.patchingOutcome strict s,
      { w with trace := w.trace ++ ((t.patch strict s).1.takeWhile Notice.isPrintable).map .noticed }) := by
  rw [patching, patchingOutcome]
  obtain ⟨notices, outcome⟩ := t.patch strict s
  dsimp only
  rw [perform_bind, Action.perform_notes]
  cases notices.all Notice.isPrintable with
  | false => rfl
  | true => cases outcome <;> rfl

theorem perform_patching_eq_ok_iff {s s' : Schema} {r : Report} {w w' : World} :
    perform (t.patching strict s) w = (.ok (s', r), w') ↔
      (t.patch strict s).2 = .ok (s', r) ∧ (∀ n ∈ (t.patch strict s).1, n.isPrintable = true) ∧
        { w with trace := w.trace ++ (t.patch strict s).1.map .noticed } = w' := by
  rw [perform_patching, patchingOutcome, ← List.all_eq_true]
  by_cases hshown : (t.patch strict s).1.all Notice.isPrintable = true
  · rw [if_pos hshown, List.takeWhile_eq_self_iff.mpr (List.all_eq_true.mp hshown)]
    cases (t.patch strict s).2 with
    | error f => simp [Except.mapError]
    | ok done => simp [Except.mapError, hshown]
  · rw [if_neg hshown]
    simp [hshown]

/-! ## Files -/

theorem perform_updateFile_eq_ok_iff {p : Path} {s' : Schema} {r : Report} {changed : Bool}
    {w w' : World} :
    perform (t.updateFile strict p) w = (.ok (s', r, changed), w') ↔
      ∃ content s, w.files.read p = .ok content ∧ Schema.ofBytes p.text content = .ok s ∧
        (t.patch strict s).2 = .ok (s', r) ∧ (∀ n ∈ (t.patch strict s).1, n.isPrintable = true) ∧
        perform (s'.save p) { w with trace := w.trace ++ (t.patch strict s).1.map .noticed } =
          (.ok changed, w') := by
  simp only [updateFile, perform_bind_eq_ok_iff, Schema.perform_load_eq_ok_iff, perform_pure,
    Prod.mk.injEq, Except.ok.injEq]
  -- load, patch and save: each leaves the world for the next
  constructor
  · rintro ⟨s, w₁, ⟨⟨content, hread, hs⟩, rfl⟩, ⟨s₁, r₁⟩, w₂, hpatching, b, w₃, hsave,
      ⟨rfl, rfl, rfl⟩, rfl⟩
    obtain ⟨hpatch, hshown, rfl⟩ := perform_patching_eq_ok_iff.mp hpatching
    exact ⟨content, s, hread, hs, hpatch, hshown, hsave⟩
  · rintro ⟨content, s, hread, hs, hpatch, hshown, hsave⟩
    exact ⟨s, w, ⟨⟨content, hread, hs⟩, rfl⟩, (s', r), _,
      perform_patching_eq_ok_iff.mpr ⟨hpatch, hshown, rfl⟩, changed, w', hsave, ⟨rfl, rfl, rfl⟩, rfl⟩

/-- Patching a file as a part of a run succeeds when the run allows it and the file can be patched. -/
theorem perform_patchFile_eq_ok_iff {p : Path} {s' : Schema} {r : Report} {q q' : Pipeline} :
    perform (t.patchFile strict p) q = (.ok (s', r), q') ↔
      ∃ run₁ run₂ changed w, q.run.advance .patching = .ok run₁ ∧
        run₁.advance .patched = .ok run₂ ∧
        perform (t.updateFile strict p) q.world = (.ok (s', r, changed), w) ∧
        { world := { w with trace := w.trace ++ [.noticed (.saved p.text changed)] }
          run := run₂ } = q' := by
  -- the run enters `patching`, the file is updated under a record of its fault, and the run enters `patched`
  constructor
  · intro h
    obtain ⟨⟨⟩, q₁, hadvance, h⟩ := perform_bind_eq_ok_iff.mp h
    obtain ⟨run₁, hrun₁, rfl⟩ := Stage.perform_advance_eq_ok_iff.mp hadvance
    obtain ⟨⟨s₁, r₁, changed⟩, q₂, hrecording, h⟩ := perform_bind_eq_ok_iff.mp h
    obtain ⟨w, hupdate, rfl⟩ :=
      Stage.perform_act_eq_ok_iff.mp (Stage.perform_recording_eq_ok_iff.mp hrecording)
    obtain ⟨⟨⟩, q₃, hact, h⟩ := perform_bind_eq_ok_iff.mp h
    obtain ⟨w', hsaved, rfl⟩ := Stage.perform_act_eq_ok_iff.mp hact
    cases hsaved.symm.trans (Action.perform_note (.saved ..) rfl w)
    obtain ⟨⟨⟩, q₄, hadvance', h⟩ := perform_bind_eq_ok_iff.mp h
    obtain ⟨run₂, hrun₂, rfl⟩ := Stage.perform_advance_eq_ok_iff.mp hadvance'
    cases h
    exact ⟨run₁, run₂, changed, w, hrun₁, hrun₂, hupdate, rfl⟩
  · rintro ⟨run₁, run₂, changed, w, hrun₁, hrun₂, hupdate, rfl⟩
    refine perform_bind_eq_ok_iff.mpr
      ⟨⟨⟩, { q with run := run₁ }, Stage.perform_advance_eq_ok_iff.mpr ⟨run₁, hrun₁, rfl⟩, ?_⟩
    refine perform_bind_eq_ok_iff.mpr ⟨(s', r, changed), { world := w, run := run₁ },
      Stage.perform_recording_eq_ok_iff.mpr (Stage.perform_act_eq_ok_iff.mpr ⟨w, hupdate, rfl⟩), ?_⟩
    refine perform_bind_eq_ok_iff.mpr
      ⟨⟨⟩, _, Stage.perform_act_eq_ok_iff.mpr ⟨_, Action.perform_note (.saved ..) rfl w, rfl⟩, ?_⟩
    exact perform_bind_eq_ok_iff.mpr
      ⟨⟨⟩, _, Stage.perform_advance_eq_ok_iff.mpr ⟨run₂, hrun₂, rfl⟩, rfl⟩

/-! ## Once and Twice -/

/-- What a successful patch leaves behind: a file that holds the canonical text of the patched schema. -/
theorem read_of_updateFile (ht : t.conflict? = none) {p : Path} {s' : Schema} {r : Report}
    {changed : Bool} {w w' : World}
    (h : perform (t.updateFile strict p) w = (.ok (s', r, changed), w')) :
    ∃ content s content', w.files.read p = .ok content ∧
      Schema.ofBytes p.text content = .ok s ∧ t.coverage s = .ok r ∧
      (strict = true → t.missingFrom s = []) ∧ t.Shows s ∧ t.patchedSchema s = s' ∧
      s'.bytes = .ok content' ∧ w'.files.read p = .ok content' := by
  obtain ⟨content, s, hread, hs, hpatch, hshown, hsave⟩ := perform_updateFile_eq_ok_iff.mp h
  obtain ⟨hcoverage, hmissing, -, rfl⟩ := (patch_eq_ok_iff ht).mp hpatch
  rw [notices_of_patch_eq_ok ht hpatch] at hshown
  -- the schema was saved, so it has bytes
  cases hbytes : (t.patchedSchema s).bytes with
  | error f =>
    rw [Schema.perform_save_of_bytes_eq_error hbytes] at hsave
    cases hsave
  | ok content' =>
    obtain ⟨hrewritten, -⟩ := Schema.rewritten_of_perform_save
      (w := { w with trace := w.trace ++ (t.patch strict s).1.map .noticed }) hread hbytes hsave
    exact ⟨content, s, content', hread, hs, hcoverage, hmissing, hshown, rfl, rfl,
      hrewritten.read hread⟩

/-- A fresh run patches a file that describes a schema, unless a strict patch misses an instruction, a notice
or the patched schema cannot be written, or the file cannot. -/
theorem exists_patchFile (ht : t.conflict? = none) {p : Path} {w : World} {content content' : Bytes}
    {s : Schema} (hread : w.files.read p = .ok content)
    (hs : Schema.ofBytes p.text content = .ok s) (hmissing : strict = true → t.missingFrom s = [])
    (hshows : t.Shows s) (hbytes : (t.patchedSchema s).bytes = .ok content')
    (hwrite : (w.files.write p content').2 = .ok ⟨⟩) :
    ∃ q, perform (t.patchFile strict p) { world := w } =
      (.ok (t.patchedSchema s, t.reportOn s), q) := by
  obtain ⟨text, htext, -⟩ := Schema.bytes_eq_ok_iff.mp hbytes
  obtain ⟨j, hj, -⟩ := Schema.canonical_eq_ok_iff.mp htext
  have hpatch : t.patch strict s = (t.notices s, .ok (t.patchedSchema s, t.reportOn s)) :=
    patch_of_copies ht (.of_plain hj) hmissing
  obtain ⟨changed, w', hsave⟩ : ∃ changed w', perform ((t.patchedSchema s).save p) { w with
      trace := w.trace ++ (t.notices s).map .noticed } = (.ok changed, w') := by
    rw [Schema.perform_save_of_read (w := { w with
      trace := w.trace ++ (t.notices s).map .noticed }) hread hbytes]
    -- whether the file has the bytes already makes no difference
    split
    · exact ⟨_, _, rfl⟩
    · rw [hwrite]
      exact ⟨_, _, rfl⟩
  have hupdate : perform (t.updateFile strict p) w =
      (.ok (t.patchedSchema s, t.reportOn s, changed), w') := by
    refine perform_updateFile_eq_ok_iff.mpr ⟨content, s, hread, hs, ?_⟩
    rw [hpatch]
    exact ⟨rfl, hshows, hsave⟩
  exact ⟨_, perform_patchFile_eq_ok_iff.mpr ⟨_, _, changed, _, rfl, rfl, hupdate, rfl⟩⟩

/-- **Patching a file twice is patching it once.**  When a file has been patched, a fresh run that patches
it again with the same table succeeds as well, leaves all files as they are and says so, and reports that
nothing was patched and that the same names are missing and the same types unknown. -/
theorem patchFile_twice (ht : t.WellFormed) {p : Path} {s : Schema} {r : Report} {q q' : Pipeline}
    (h : perform (t.patchFile strict p) q = (.ok (s, r), q')) {w : World}
    (hw : w.files = q'.world.files) :
    ∃ s' r' q'', perform (t.patchFile strict p) { world := w } = (.ok (s', r'), q'') ∧
      q''.world.files = w.files ∧
      q''.world.trace.getLast? = some (.noticed (.saved p.text false)) ∧
      r'.patched = [] ∧ r'.missing = r.missing ∧ r'.unknownTypes = r.unknownTypes := by
  obtain ⟨run₁, run₂, changed, w₁, -, -, hupdate, rfl⟩ := perform_patchFile_eq_ok_iff.mp h
  obtain ⟨content, s₀, content', hread, hs₀, hcoverage, hmissing, hshows, rfl, hbytes, hread'⟩ :=
    read_of_updateFile ht.unambiguous hupdate
  obtain ⟨text, htext, hencode⟩ := Schema.bytes_eq_ok_iff.mp hbytes
  obtain ⟨j, hj, -⟩ := Schema.canonical_eq_ok_iff.mp htext
  -- the schema that comes back has nothing left to patch, and the canonical text it came from
  have hwellFormed := ht.patchedSchema (Schema.wellFormed_of_ofBytes hs₀)
  obtain ⟨s', hs', htext', hordered⟩ :=
    Schema.ofBytes_of_bytes hwellFormed htext hencode p.text
  obtain ⟨j', hj', -⟩ := Schema.canonical_eq_ok_iff.mp htext'
  obtain ⟨hsame, hpatched, hmissing', hunknown⟩ := stable hordered
  have hcopies : t.Copies s' := .of_plain (hsame.symm ▸ hj')
  -- all types that a notice may show have been written, compared or shown before
  have hshows' : t.Shows s' := by
    refine hshows.again hj (Schema.documented_of_ofBytes hs₀) (Schema.documented_of_ofBytes hs') ?_
    rw [Schema.instructionNames_eq_outline, (Schema.outline_eq_of_ordered hordered).1,
      ← Schema.instructionNames_eq_outline, instructionNames_patchedSchema]
  have hpatch : t.patch strict s' = (t.notices s', .ok (t.patchedSchema s', t.reportOn s')) :=
    patch_of_copies ht.unambiguous hcopies (by rwa [hmissing'])
  rw [hsame] at hpatch
  have hread'' : w.files.read p = .ok content' := by rw [hw]; exact hread'
  have hsave := Schema.perform_save_unchanged (w := { w with
    trace := w.trace ++ (t.notices s').map .noticed }) hread''
    (Schema.bytes_eq_ok_iff.mpr ⟨text, htext', hencode⟩)
  have hupdate' : perform (t.updateFile strict p) w = (.ok (s', t.reportOn s', false),
      { w with trace := w.trace ++ (t.notices s').map .noticed }) := by
    refine perform_updateFile_eq_ok_iff.mpr ⟨content', s', hread'', hs', ?_⟩
    rw [hpatch]
    exact ⟨rfl, hshows', hsave⟩
  rw [coverage_eq_reportOn ht.unambiguous] at hcoverage
  cases hcoverage
  exact ⟨s', _, _, perform_patchFile_eq_ok_iff.mpr
    ⟨_, _, false, _, rfl, rfl, hupdate', rfl⟩, rfl, by simp, hpatched, hmissing', hunknown⟩

end PatchTable

/-! ## An Instruction to Patch -/

namespace Succession

/-- A document with an instruction that the built-in table patches, and with another one. -/
def document : Json :=
  .object [("instructions", .list [
      .object [("args", .list [.object [("name", .text "seat"), ("type", .text "u8")]]),
        ("name", .text "NameSuccessor")],
      .object [("name", .text "Log")]]),
    ("types", .list [])]

/-- The schema of the document. -/
def schema : Schema where
  instructions := [
    { name := "NameSuccessor", args := some [{ name := "seat", type := .named "u8" }] },
    { name := "Log" }]
  types := []

/-- What the patched schema is written as. -/
def form : Json :=
  .object [("instructions", .list [
      .object [("name", .text "NameSuccessor"),
        ("args", .list [.object [("name", .text "seat"), ("type", .text "u8")],
          .object [("name", .text "successor"), ("type", .text "publicKey")]])],
      .object [("name", .text "Log")]]),
    ("types", .list [])]

/-- A file that denotes the document. -/
def content : Bytes :=
  Utf8.encodeChars
    ("\x7b\"instructions\":[\x7b\"args\":[\x7b\"name\":\"seat\",\"type\":\"u8\"\x7d],".toList ++
      "\"name\":\"NameSuccessor\"\x7d,\x7b\"name\":\"Log\"\x7d],\"types\":[]\x7d".toList)

/-- A world of this file. -/
def world : World where
  files := { home := [], entries := [(["idl.json"], .file content)] }

/-- The path of the file. -/
def path : Path :=
  ⟨.relative, ["idl.json"]⟩

set_option maxRecDepth 10000 in
theorem ofBytes_content : Schema.ofBytes path.text content = .ok schema := by
  have hcontent : Json.ofBytes content = some document := by cbv
  exact Schema.ofBytes_eq_ok_iff.mpr ⟨document, hcontent, by rfl⟩

/-- The patched schema can be written. -/
theorem exists_bytes : ∃ content', (PatchTable.phoenix.patchedSchema schema).bytes = .ok content' := by
  have hform : form.TextsEncodable ∧ form.NamesEncodable := by
    simp [form, Json.TextsEncodable, Json.NamesEncodable, Json.Everywhere, Json.EverywhereInItems,
      Json.EverywhereInMembers, Text.encodable_ofString]
  have htext : (PatchTable.phoenix.patchedSchema schema).canonical = .ok form.canonical :=
    Schema.canonical_eq_ok_iff.mpr ⟨form, rfl, rfl⟩
  have hencodable := (Json.encodable_canonical hform.2).mpr hform.1
  exact ⟨_, Schema.bytes_eq_ok_iff.mpr ⟨_, htext, Utf8.encode_ok_iff.mpr ⟨hencodable, rfl⟩⟩⟩

/-- The first patch appends the argument, the second one does nothing. -/
theorem patchFile_world_twice :
    ∃ r q, perform (PatchTable.phoenix.patchFile false path) { world := world } =
        (.ok (PatchTable.phoenix.patchedSchema schema, r), q) ∧
      r.patched = ["NameSuccessor"] ∧
      ∃ s' r' q', perform (PatchTable.phoenix.patchFile false path) { world := q.world } =
          (.ok (s', r'), q') ∧
        q'.world.files = q.world.files ∧ r'.patched = [] ∧ r'.missing = r.missing := by
  obtain ⟨content', hbytes⟩ := exists_bytes
  have hshows : PatchTable.phoenix.Shows schema :=
    PatchTable.shows_of_documented (Schema.documented_of_ofBytes ofBytes_content) fun _ _ rule hrule =>
      (by decide : ∀ rule ∈ PatchTable.phoenix.rules, rule.append.type.isPrintable = true) rule
        (PatchTable.mem_rules_of_rule? hrule)
  obtain ⟨q, h⟩ : ∃ q, perform (PatchTable.phoenix.patchFile false path) { world } =
      (.ok (PatchTable.phoenix.patchedSchema schema, PatchTable.phoenix.reportOn schema), q) :=
    PatchTable.exists_patchFile PatchTable.conflict?_phoenix rfl ofBytes_content (by simp) hshows hbytes rfl
  -- a new run on the files that the first one left
  obtain ⟨s', r', q', h', hfiles, -, hpatched, hmissing, -⟩ :=
    PatchTable.patchFile_twice PatchTable.wellFormed_phoenix h rfl
  exact ⟨_, q, h, by decide, s', r', q', h', hfiles, hpatched, hmissing⟩

end Succession

end SchemaGraft
