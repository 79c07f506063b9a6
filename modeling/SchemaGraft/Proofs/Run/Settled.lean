import SchemaGraft.Proofs.Run.Course

/-!
# Settled Runs

An operation settles its run when it reaches its goal, or lets the run fail and records the fault.  Only
faults that nothing on the way has turned into foreseen ones can prevent that.  For patching and extracting
they are listed here, with the state in which each of them leaves the run.

## Architecture

- **Settling**: `Run.Settled`, and `Stage.SettlesUnless` for operations with faults that leave a run half
  way; `Stage.settlesUnless_of_follows`.
- **Schema files**: `Schema.LoadBreaks` and `Schema.SaveBreaks`.
- **Patching**: `PatchTable.PatchingBreaks` for the patch alone, and `PatchTable.Breaks` with `PatchTable.breaks_iff` and `PatchTable.breaks_patchFile_iff`.
- **Extracting**: `Extraction.Breaks`, with `Extraction.breaks_run_iff`.
- **Main result**: `Extraction.settles_idle`.
-/

namespace SchemaGraft

/-! ## Settling -/

namespace Run

variable {α : Type} {r after : Run} {course : List RunState} {goal : RunState}

/-- An operation has taken the run to its goal, or has recorded the fault that it ends with. -/
inductive Settled {α : Type} (goal : RunState) : Except Fault α → Run → Prop where
  | reached {x : α} {after : Run} (state : after.state = goal) : Settled goal (.ok x) after
  | failed {f : Fault} {after : Run} (foreseen : f.isForeseen = true) (state : after.state = .failed)
      (error : after.error = some f) : Settled goal (.error f) after

/-- A run at the end of its course is in the last state of the course. -/
theorem Ends.settled {outcome : Except Fault α} (h : r.Ends course outcome after)
    (hgoal : course.getLast? = some goal)
    (hforeseen : ∀ f, outcome = .error f → f.isForeseen = true) : Settled goal outcome after := by
  -- by the way the stage ended; an abandoned one ended on a fault that was not foreseen
  cases h with
  | finished error history =>
    have hlast := after.getLast?_history
    rw [history, List.getLast?_append, hgoal] at hlast
    exact .reached (Option.some.inj hlast).symm
  | failed foreseen partway state error => exact .failed foreseen state error
  | abandoned unforeseen =>
    rw [hforeseen _ rfl] at unforeseen
    cases unforeseen

theorem Ends.error_of_unforeseen {f : Fault} (h : r.Ends course (.error f : Except Fault α) after)
    (hf : f.isForeseen = false) : after.error = r.error := by
  cases h with
  | failed foreseen =>
    rw [hf] at foreseen
    cases foreseen
  | abandoned unforeseen partway error => exact error

end Run

namespace Stage

variable {α : Type}

/-- The operation settles the run, unless it breaks: each fault for which `breaks` has a state ends the
operation, is not foreseen and not recorded, and leaves the run in that state. -/
structure SettlesUnless (breaks : Fault → RunState → Prop) (goal : RunState) (op : Stage α)
    (q : Pipeline) : Prop where
  settled : (∀ f s, ¬breaks f s) → Run.Settled goal (perform op q).1 (perform op q).2.run
  broken : ∀ f s, breaks f s → f.isForeseen = false ∧ (perform op q).1 = .error f ∧
    (perform op q).2.run.state = s ∧ (perform op q).2.run.error = q.run.error

/-- An operation that follows its course settles each run that allows it, unless it ends with a fault
that is not foreseen. -/
theorem settlesUnless_of_follows {op : Stage α} {first goal : RunState} {rest : List RunState}
    {breaks : Fault → RunState → Prop} {q : Pipeline} (h : Follows op first rest)
    (hfirst : first ∈ q.run.state.next) (hgoal : (first :: rest).getLast? = some goal)
    (hbreaks : ∀ f s, breaks f s ↔
      f.isForeseen = false ∧ (perform op q).1 = .error f ∧ (perform op q).2.run.state = s) :
    SettlesUnless breaks goal op q := by
  have hends := h q
  rw [if_pos hfirst] at hends
  -- no break: the course was finished or the fault foreseen; a break: the run stays where it was
  constructor
  · intro hnone
    refine hends.settled hgoal fun f hf => ?_
    by_contra hunforeseen
    exact hnone f _ ((hbreaks f _).mpr ⟨by simpa using hunforeseen, hf, rfl⟩)
  · intro f s hbreak
    obtain ⟨hunforeseen, hf, hstate⟩ := (hbreaks f s).mp hbreak
    rw [hf] at hends
    exact ⟨hunforeseen, hf, hstate, hends.error_of_unforeseen hunforeseen⟩

end Stage

/-! ## Schema Files -/

namespace Schema

/-- The faults with which loading a schema file ends although they are not foreseen. -/
inductive LoadBreaks (p : Path) (files : FileTree) : Fault → Prop where
  /-- The path cannot be one of a file. -/
  | path {f : AccessFault} (read : files.read p = .error f) (unusable : ∀ e t, f ≠ .system e t) :
    LoadBreaks p files (.access f)
  /-- A number of the document has too many digits. -/
  | longInteger {content : Bytes} {cs : List Char} {digits : Nat} (read : files.read p = .ok content)
      (decoded : Utf8.decode content = .ok cs)
      (document : Json.read (unifyNewlines cs) = .error (.longInteger digits)) :
    LoadBreaks p files (.longInteger digits)
  /-- The document is nested too deeply for the reader. -/
  | tooDeep {content : Bytes} {cs : List Char} (read : files.read p = .ok content)
      (decoded : Utf8.decode content = .ok cs)
      (document : Json.read (unifyNewlines cs) = .error .tooDeep) : LoadBreaks p files .tooDeep

/-- The faults with which saving a schema ends before it writes. -/
inductive SaveBreaks (s : Schema) : Fault → Prop where
  /-- The schema has no JSON form, such as when it is nested too deeply for the writer, or when the name of a
  nested member holds a lone surrogate. -/
  | formless {f : PlainFault} (canonical : s.canonical = .error f) : SaveBreaks s (.plain f)
  /-- The canonical text has no encoding: it holds a lone surrogate. -/
  | unencodable {t : Text} {f : Utf8.EncodeFault} (canonical : s.canonical = .ok t)
      (encoded : Utf8.encode t = .error f) : SaveBreaks s (.unencodable f)

theorem isForeseen_of_ofJson {source : Text} {raw : Json} {f : Fault}
    (h : ofJson source raw = .error f) : f.isForeseen = true := by
  cases raw with
  | object ms =>
    rw [ofJson] at h
    split at h
    · split at h
      · cases h
      · cases h
        rfl
    · cases h
      rfl
  | _ =>
    cases h
    rfl

theorem perform_load_of_read_eq_error {p : Path} {w : World} {f : AccessFault}
    (h : w.files.read p = .error f) : perform (load p) w = (.error (unreadable p.text f), w) := by
  rw [load, perform_bind, perform_get]
  dsimp only
  rw [h]
  rfl

/-- Loading lets through these faults and no others. -/
theorem loadBreaks_iff {p : Path} {w : World} {f : Fault} :
    LoadBreaks p w.files f ↔ f.isForeseen = false ∧ (perform (load p) w).1 = .error f := by
  constructor
  · rintro (@⟨g, hread, hunusable⟩ | ⟨hread, hdecode, hjson⟩ | ⟨hread, hdecode, hjson⟩)
    · rw [perform_load_of_read_eq_error hread]
      cases g with
      | system e t => exact absurd rfl (hunusable e t)
      | nullByte => exact ⟨rfl, rfl⟩
      | unencodable f => exact ⟨rfl, rfl⟩
    all_goals
      rw [perform_load_of_read hread, ofBytes, hdecode]
      dsimp only
      rw [hjson]
      exact ⟨rfl, rfl⟩
  · rintro ⟨hunforeseen, h⟩
    cases hread : w.files.read p with
    | error g =>
      rw [perform_load_of_read_eq_error hread] at h
      cases g with
      | system e t =>
        -- errors of the system are foreseen
        cases e <;> cases h <;> cases hunforeseen
      | nullByte =>
        cases h
        exact .path hread (by simp)
      | unencodable g =>
        cases h
        exact .path hread (by simp)
    | ok content =>
      rw [perform_load_of_read hread, ofBytes] at h
      dsimp only at h
      split at h
      · cases h
        cases hunforeseen
      · next cs hdecode =>
        split at h
        · rw [isForeseen_of_ofJson h] at hunforeseen
          cases hunforeseen
        · cases h
          cases hunforeseen
        · next hjson =>
          cases h
          exact .longInteger hread hdecode hjson
        · next hjson =>
          cases h
          exact .tooDeep hread hdecode hjson

/-- A schema has canonical bytes, unless saving it breaks. -/
theorem saveBreaks_iff {s : Schema} {f : Fault} : s.SaveBreaks f ↔ s.bytes = .error f := by
  rw [bytes, text]
  constructor
  · rintro (@⟨g, hcanonical⟩ | @⟨t, g, hcanonical, hencode⟩)
    · rw [hcanonical]
      rfl
    · rw [hcanonical]
      dsimp only
      rw [Except.ok_bind, hencode]
      rfl
  · intro h
    -- saving breaks where there is no text, and where the text has no bytes
    cases hcanonical : s.canonical with
    | error g =>
      rw [hcanonical] at h
      cases h
      exact .formless hcanonical
    | ok t =>
      rw [hcanonical] at h
      dsimp only at h
      rw [Except.ok_bind] at h
      cases hencode : Utf8.encode t with
      | ok content =>
        rw [hencode] at h
        cases h
      | error g =>
        rw [hencode] at h
        cases h
        exact .unencodable hcanonical hencode

theorem SaveBreaks.unforeseen {s : Schema} {f : Fault} (h : s.SaveBreaks f) : f.isForeseen = false := by
  cases h <;> rfl

/-- Where a file can be read, no write fails for a reason that the system does not name. -/
theorem isForeseen_unwritable {files after : FileTree} {p : Path} {old content : Bytes}
    {f : AccessFault} (hold : files.read p = .ok old) (h : files.write p content = (after, .error f)) :
    (unwritable p.text f).isForeseen = true := by
  obtain ⟨l, hfind, -⟩ := FileTree.read_eq_ok_iff.mp hold
  -- the file was read, so the place is found, and only filling it can fail
  rw [FileTree.write_of_find (.inr ⟨old, rfl⟩) hfind, FileTree.fillFile] at h
  split at h
  · cases h
    rfl
  · split at h
    · cases h
    · cases h
      rfl

/-- Saving over a file that is there lets no other fault through. -/
theorem saveBreaks_of_perform_save {s : Schema} {p : Path} {w w' : World} {old : Bytes} {f : Fault}
    (hold : w.files.read p = .ok old) (h : perform (s.save p) w = (.error f, w'))
    (hunforeseen : f.isForeseen = false) : s.SaveBreaks f := by
  -- a fault in writing is foreseen, so an unforeseen one comes from the serializer
  cases hbytes : s.bytes with
  | error g =>
    rw [perform_save_of_bytes_eq_error hbytes] at h
    cases h
    exact saveBreaks_iff.mpr hbytes
  | ok content =>
    rw [perform_save_of_read hold hbytes] at h
    split at h
    · cases h
    · rcases hwrite : w.files.write p content with ⟨files, g | ⟨⟩⟩
      · rw [hwrite] at h
        cases h
        rw [isForeseen_unwritable hold hwrite] at hunforeseen
        cases hunforeseen
      · rw [hwrite] at h
        cases h

end Schema

/-! ## Patching -/

namespace PatchTable

variable {t : PatchTable} {strict : Bool} {p : Path}

/-- The faults with which patching a schema ends although they are not foreseen. -/
inductive PatchingBreaks (t : PatchTable) (strict : Bool) (s : Schema) : Fault → Prop where
  /-- A notice shows a type with an integer that has no wording. -/
  | showing {n : Notice} (noted : n ∈ (t.patch strict s).1) (hidden : n.isPrintable = false) :
    PatchingBreaks t strict s .unprintable
  /-- The schema, or an argument that one of its instructions lacks, is nested too deeply to be copied. -/
  | copying (shown : ∀ n ∈ (t.patch strict s).1, n.isPrintable = true)
      (refused : (t.patch strict s).2 = .error (.refused .tooDeep)) : PatchingBreaks t strict s .tooDeep

/-- A patch lets through these faults and no others: ambiguous rules and drift are foreseen. -/
theorem patchingBreaks_iff {s : Schema} {f : Fault} :
    t.PatchingBreaks strict s f ↔ f.isForeseen = false ∧ t.patchingOutcome strict s = .error f := by
  rw [patchingOutcome]
  constructor
  · rintro (⟨hnoted, hhidden⟩ | ⟨hshown, hrefused⟩)
    -- the first record that cannot be shown ends the patch before its outcome counts
    · rw [if_neg fun hall => by rw [List.all_eq_true.mp hall _ hnoted] at hhidden; cases hhidden]
      exact ⟨rfl, rfl⟩
    · rw [if_pos (List.all_eq_true.mpr hshown), hrefused]
      exact ⟨rfl, rfl⟩
  · rintro ⟨hunforeseen, h⟩
    split at h
    · next hall =>
      rcases hpatch : (t.patch strict s).2 with (⟨⟨a⟩ | ⟨⟩⟩ | missing) | done <;> rw [hpatch] at h <;>
        cases h
      · cases hunforeseen
      · exact .copying (List.all_eq_true.mp hall) hpatch
      · cases hunforeseen
    · next hall =>
      obtain ⟨n, hn, hhidden⟩ : ∃ n ∈ (t.patch strict s).1, n.isPrintable = false := by
        simpa using hall
      cases h
      exact .showing hn hhidden

/-- The faults with which patching a file ends although they are not foreseen. -/
inductive Breaks (t : PatchTable) (strict : Bool) (p : Path) (files : FileTree) : Fault → Prop where
  /-- The file cannot be loaded. -/
  | load {f : Fault} (loading : Schema.LoadBreaks p files f) : Breaks t strict p files f
  /-- The schema in the file cannot be patched. -/
  | patch {content : Bytes} {s : Schema} {f : Fault} (read : files.read p = .ok content)
      (loaded : Schema.ofBytes p.text content = .ok s) (patching : t.PatchingBreaks strict s f) :
    Breaks t strict p files f
  /-- The schema in the file is patched, but has no canonical bytes. -/
  | save {content : Bytes} {s s' : Schema} {r : Report} {f : Fault} (read : files.read p = .ok content)
      (loaded : Schema.ofBytes p.text content = .ok s) (patch : (t.patch strict s).2 = .ok (s', r))
      (shown : ∀ n ∈ (t.patch strict s).1, n.isPrintable = true) (saving : s'.SaveBreaks f) :
    Breaks t strict p files f

/-- A break is carried through the steps that come before it. -/
theorem Breaks.perform_updateFile {w : World} {f : Fault} (h : t.Breaks strict p w.files f) :
    f.isForeseen = false ∧ (perform (t.updateFile strict p) w).1 = .error f := by
  have hload {content : Bytes} {s : Schema} (read : w.files.read p = .ok content)
      (loaded : Schema.ofBytes p.text content = .ok s) : perform (Schema.load p) w = (.ok s, w) :=
    Schema.perform_load_eq_ok_iff.mpr ⟨⟨content, read, loaded⟩, rfl⟩
  cases h with
  | load loading =>
    obtain ⟨hunforeseen, hload⟩ := Schema.loadBreaks_iff.mp loading
    refine ⟨hunforeseen, ?_⟩
    rw [updateFile, perform_bind]
    rcases hperform : perform (Schema.load p) w with ⟨outcome, w'⟩
    rw [hperform] at hload
    cases hload
    rfl
  | patch read loaded patching =>
    obtain ⟨hunforeseen, houtcome⟩ := patchingBreaks_iff.mp patching
    refine ⟨hunforeseen, ?_⟩
    rw [updateFile, perform_bind, hload read loaded]
    dsimp only
    rw [perform_bind, perform_patching, houtcome]
  | @save content s s' r f read loaded patch shown saving =>
    have hpatching : perform (t.patching strict s) w = (.ok (s', r), _) :=
      perform_patching_eq_ok_iff.mpr ⟨patch, shown, rfl⟩
    have hsave (w : World) :=
      Schema.perform_save_of_bytes_eq_error (Schema.saveBreaks_iff.mp saving) p w
    refine ⟨saving.unforeseen, ?_⟩
    rw [updateFile, perform_bind, hload read loaded]
    dsimp only
    rw [perform_bind, hpatching]
    dsimp only
    rw [perform_bind, hsave]

/-- An unforeseen fault was raised by loading, patching or saving, behind steps that succeeded. -/
theorem breaks_of_perform_updateFile {w w' : World} {f : Fault} (hunforeseen : f.isForeseen = false)
    (h : perform (t.updateFile strict p) w = (.error f, w')) : t.Breaks strict p w.files f := by
  rcases perform_bind_eq_error_iff.mp h with h | ⟨s, w₁, hload, h⟩
  · exact .load (Schema.loadBreaks_iff.mpr ⟨hunforeseen, by rw [h]⟩)
  obtain ⟨⟨content, hread, hs⟩, rfl⟩ := Schema.perform_load_eq_ok_iff.mp hload
  rcases perform_bind_eq_error_iff.mp h with h | ⟨⟨s', r⟩, w₂, hpatching, h⟩
  · rw [perform_patching] at h
    exact .patch hread hs (patchingBreaks_iff.mpr ⟨hunforeseen, congrArg Prod.fst h⟩)
  obtain ⟨hpatch, hshown, rfl⟩ := perform_patching_eq_ok_iff.mp hpatching
  rcases perform_bind_eq_error_iff.mp h with h | ⟨changed, w₃, -, h⟩
  · exact .save hread hs hpatch hshown (Schema.saveBreaks_of_perform_save (w := {
      w with trace := w.trace ++ (t.patch strict s).1.map .noticed }) hread h hunforeseen)
  · cases h

/-- **Patching a file lets through these faults and no others.**  One of the writing is foreseen. -/
theorem breaks_iff {w : World} {f : Fault} :
    t.Breaks strict p w.files f ↔
      f.isForeseen = false ∧ (perform (t.updateFile strict p) w).1 = .error f :=
  ⟨Breaks.perform_updateFile, fun h => breaks_of_perform_updateFile h.1 (Prod.ext h.2 rfl)⟩

/-- Patching a file as a part of a run lets through the faults of the update, in the state of patching. -/
theorem breaks_patchFile_iff {q : Pipeline} (h : .patching ∈ q.run.state.next) {f : Fault}
    {s : RunState} :
    t.Breaks strict p q.world.files f ∧ s = .patching ↔
      f.isForeseen = false ∧ (perform (t.patchFile strict p) q).1 = .error f ∧
        (perform (t.patchFile strict p) q).2.run.state = s := by
  rw [breaks_iff, perform_patchFile (Run.advance_eq_ok_iff.mpr ⟨h, rfl⟩)]
  -- the run records a foreseen fault and leaves `patching`; an unforeseen one finds it there
  rcases perform (t.updateFile strict p) q.world with ⟨g | ⟨s', r, changed⟩, w⟩
  · dsimp only
    constructor
    · rintro ⟨⟨hunforeseen, hg⟩, rfl⟩
      cases hg
      exact ⟨hunforeseen, rfl, by rw [hunforeseen]; rfl⟩
    · rintro ⟨hunforeseen, hg, hstate⟩
      cases hg
      rw [hunforeseen] at hstate
      exact ⟨⟨hunforeseen, rfl⟩, hstate.symm⟩
  · simp

end PatchTable

/-! ## Extracting -/

/-- A tool that does not start lets through what is neither foreseen nor a missing or forbidden program. -/
theorem Tool.startFault_eq_iff {tool : Text} {hint : Option Text} {f g : Fault} :
    f.isForeseen = false ∧ startFault tool hint g = f ↔
      g = f ∧ f.isForeseen = false ∧ (∀ path, f ≠ .access (.system .notFound path)) ∧
        ∀ path, f ≠ .access (.system .denied path) := by
  unfold startFault
  -- a missing tool and a refused one get a fault of their own, which is foreseen
  split
  · constructor
    · rintro ⟨hunforeseen, rfl⟩
      cases hunforeseen
    · rintro ⟨rfl, -, hmissing, -⟩
      exact absurd rfl (hmissing _)
  · constructor
    · rintro ⟨hunforeseen, rfl⟩
      cases hunforeseen
    · rintro ⟨rfl, -, -, hdenied⟩
      exact absurd rfl (hdenied _)
  · next hmissing hdenied =>
    constructor
    · rintro ⟨hunforeseen, rfl⟩
      exact ⟨rfl, hunforeseen, hmissing, hdenied⟩
    · rintro ⟨rfl, hunforeseen, -⟩
      exact ⟨hunforeseen, rfl⟩

namespace Extraction

variable {host : Host} {c : Config} {t : PatchTable}

/-- The faults with which an extraction ends although they are not foreseen, and the states in which they
leave the run. -/
inductive Breaks (host : Host) (c : Config) (t : PatchTable) (files : FileTree) :
    Fault → RunState → Prop where
  /-- The extractor does not start, for another reason than that it is missing or may not be started. -/
  | starting {f : Fault} (launch : host.launch (command c) files = .error f)
      (unforeseen : f.isForeseen = false) (missing : ∀ path, f ≠ .access (.system .notFound path))
      (denied : ∀ path, f ≠ .access (.system .denied path)) : Breaks host c t files f .extracting
  /-- The extractor reports success, but the file that is there then cannot be patched. -/
  | patching {e : Execution} {f : Fault} (launch : host.launch (command c) files = .ok e)
      (status : e.status = 0) (file : t.Breaks c.strictCoverage c.schemaPath e.files f) :
    Breaks host c t files f .patching

/-- **Extracting lets through these faults and no others**, each in its state. -/
theorem breaks_run_iff {q : Pipeline} (h : .extracting ∈ q.run.state.next) {f : Fault} {s : RunState} :
    Breaks host c t q.world.files f s ↔
      f.isForeseen = false ∧ (perform (run host c t) q).1 = .error f ∧
        (perform (run host c t) q).2.run.state = s := by
  -- the extractor may not start, may end badly, or leave a file for the patch
  rw [perform_run (Run.advance_eq_ok_iff.mpr ⟨h, rfl⟩), perform_extract]
  cases hlaunch : host.launch (command c) q.world.files with
  | error g =>
    dsimp only
    constructor
    · rintro (⟨hlaunch', hunforeseen, hmissing, hdenied⟩ | ⟨hlaunch'⟩)
      · cases hlaunch.symm.trans hlaunch'
        obtain ⟨-, hsame⟩ := Tool.startFault_eq_iff.mpr ⟨rfl, hunforeseen, hmissing, hdenied⟩
        rw [hsame, hunforeseen]
        exact ⟨rfl, rfl, rfl⟩
      · cases hlaunch.symm.trans hlaunch'
    · rintro ⟨hunforeseen, hg, hstate⟩
      have hsame := Except.error.inj hg
      rw [hsame, hunforeseen] at hstate
      obtain ⟨rfl, -, hmissing, hdenied⟩ := Tool.startFault_eq_iff.mp ⟨hunforeseen, hsame⟩
      rw [← hstate]
      exact .starting hlaunch hunforeseen hmissing hdenied
  | ok e =>
    dsimp only
    by_cases hstatus : e.status = 0
    · rw [if_pos hstatus]
      dsimp only
      rw [← PatchTable.breaks_patchFile_iff (show .patching ∈ RunState.extracting.next by decide)]
      constructor
      · rintro (⟨hlaunch'⟩ | ⟨hlaunch', -, hfile⟩)
        · cases hlaunch.symm.trans hlaunch'
        · cases hlaunch.symm.trans hlaunch'
          exact ⟨hfile, rfl⟩
      · rintro ⟨hfile, rfl⟩
        exact .patching hlaunch hstatus hfile
    · rw [if_neg hstatus]
      dsimp only
      constructor
      · rintro (⟨hlaunch'⟩ | ⟨hlaunch', hstatus'⟩)
        · cases hlaunch.symm.trans hlaunch'
        · cases hlaunch.symm.trans hlaunch'
          exact absurd hstatus' hstatus
      · rintro ⟨hunforeseen, hf, -⟩
        cases hf
        cases hunforeseen

end Extraction

/-! ## Patching an Idle Run -/

/-- **Patching and extracting settle an idle run**, whatever the files, the configuration, the table and
the extractor are, unless they break.  A path that no file can have, a document that is nested too deeply
or has too long a number, a schema that is nested too deeply to be copied, a notice that shows too long an
integer, and a schema that cannot be written again leave the run patching; an extractor that fails to start
for an unusual reason leaves it extracting. -/
theorem Extraction.settles_idle (t : PatchTable) {q : Pipeline} (hidle : q.run.state = .idle) :
    (∀ (strict : Bool) (p : Path), Stage.SettlesUnless
        (fun f s => t.Breaks strict p q.world.files f ∧ s = .patching) .patched
        (t.patchFile strict p) q) ∧
      ∀ (host : Host) (c : Config), Stage.SettlesUnless
        (Extraction.Breaks host c t q.world.files) .patched (Extraction.run host c t) q := by
  -- from `idle` both stages may begin
  have hpatching : .patching ∈ q.run.state.next := by
    rw [hidle]
    decide
  have hextracting : .extracting ∈ q.run.state.next := by
    rw [hidle]
    decide
  constructor
  · intro strict p
    exact Stage.settlesUnless_of_follows (t.patchFile_follows strict p) hpatching rfl
      fun f s => PatchTable.breaks_patchFile_iff hpatching
  · intro host c
    exact Stage.settlesUnless_of_follows (Extraction.run_follows host c t) hextracting rfl
      fun f s => Extraction.breaks_run_iff hextracting

/-! ## A File That Leaves Its Run Half Way -/

namespace Stranded

/-- A text of one lone surrogate, the last one. -/
def lone : Text := [.surrogate (Fin.last 2047)]

/-- A document with a lone surrogate in a text. -/
def document : Json :=
  .object [("instructions", .list []), ("types", .list []), ("x", .text lone)]

/-- The schema of the document. -/
def schema : Schema where
  instructions := []
  types := []
  extra := [("x", .scalar (.text lone))]

/-- A file that denotes the document. -/
def content : Bytes :=
  Utf8.encodeChars "\x7b\"instructions\":[],\"types\":[],\"x\":\"\\udfff\"\x7d".toList

/-- A configuration whose generator has no command. -/
def config : Config := { generatorCommand := [] }

/-- A world in which this is the schema file of the configuration. -/
def world : World where
  files :=
    { home := []
      entries := [(["idl"], .directory), (["idl", "phoenix.json"], .file content)] }

/-- A table without rules. -/
def table : PatchTable := { version := "t" }

/-- A system on which no tool can be started. -/
def host : Host where
  launch _ _ := .error (.access (.system .notDirectory "shank"))
  temporary := ["tmp"]

set_option maxRecDepth 10000 in
theorem ofBytes_content : Json.ofBytes content = some document := by
  cbv

theorem read_world : world.files.read config.schemaPath = .ok content := rfl

theorem ofBytes_schema (source : Text) : Schema.ofBytes source content = .ok schema :=
  Schema.ofBytes_eq_ok_iff.mpr ⟨document, ofBytes_content, rfl⟩

theorem canonical_schema : schema.canonical = .ok document.canonical :=
  Schema.canonical_eq_ok_iff.mpr ⟨document, rfl, rfl⟩

theorem exists_encode_canonical : ∃ f, Utf8.encode document.canonical = .error f := by
  have hnames : document.NamesEncodable := by
    simp [document, Json.NamesEncodable, Json.Everywhere, Json.EverywhereInItems]
  -- were the text encodable, so would the lone surrogate in it be
  cases hencode : Utf8.encode document.canonical with
  | error f => exact ⟨f, rfl⟩
  | ok content =>
    have htexts := (Json.encodable_canonical hnames).mp (Utf8.encode_ok_iff.mp hencode).1
    simp [document, lone, Json.TextsEncodable, Json.Everywhere, Text.Encodable,
      Codepoint.isSurrogate] at htexts

theorem exists_breaks : ∃ f, table.Breaks true config.schemaPath world.files (.unencodable f) := by
  obtain ⟨f, hencode⟩ := exists_encode_canonical
  have hpatch : (table.patch true schema).2 = .ok (schema, _) := rfl
  have hshown : ∀ n ∈ (table.patch true schema).1, n.isPrintable = true := by decide
  exact ⟨f, .save read_world (ofBytes_schema _) hpatch hshown (.unencodable canonical_schema hencode)⟩

/-- A fresh run is left patching by the file, and extracting by the system. -/
theorem left_half_way :
    (∃ f, (perform (table.patchFile true config.schemaPath) { world }).1 = .error (.unencodable f)) ∧
      (perform (table.patchFile true config.schemaPath) { world }).2.run.state = .patching ∧
      (perform (Extraction.run host config table) { world }).2.run.state = .extracting := by
  obtain ⟨hpatch, hextract⟩ := Extraction.settles_idle table (q := { world }) rfl
  obtain ⟨f, hbreaks⟩ := exists_breaks
  obtain ⟨-, hfault, hpatching, -⟩ := (hpatch true config.schemaPath).broken _ _ ⟨hbreaks, rfl⟩
  obtain ⟨-, -, hextracting, -⟩ := (hextract host config).broken _ _
    (.starting rfl rfl (by simp) (by simp))
  exact ⟨⟨f, hfault⟩, hpatching, hextracting⟩

end Stranded

end SchemaGraft
