import SchemaGraft.Proofs.CommandLine.EndToEnd
import SchemaGraft.Proofs.CommandLine.Markup
import SchemaGraft.Proofs.Yaml.Proper

/-!
# Patching from the Command Line

The command that patches a file shows a summary after the file has been rewritten.  When it fails before
that, no file has changed, unless the medium is full and the write is cut short.  It can fail after that as
well: names, the version of the table and the path are shown with their style tags, so a closing tag in one of
them may match no open one.

## Architecture

- **Output**: `renderTable` and `renderSummary` say what is shown; `perform_printSummary_of_ok` and
  `perform_printSummary_of_error`.
- **Reports**: `perform_reporting_of_foreseen` and its like; `perform_execute_cases` takes a command apart.
- **Patches**: `survey` is what a check and a patch find first; `PatchCourse` are the ways that a patch can
  go, and `patchCourse` says that there are no others.
- **Main result**: `patch_fails_early_or_late`.
-/

namespace SchemaGraft

namespace CommandLine

/-! ## Output -/

/-- A table as it is shown. -/
def renderTable (t : TextTable) : Except MarkupFault TextTable := do
  let title ← Markup.render t.title
  let columns ← t.columns.mapM Markup.render
  let rows ← t.rows.mapM (·.mapM Markup.render)
  return { title, columns, rows }

/-- What is shown after a patch: the table of its report, and a line. -/
def renderSummary (r : Report) (p : Path) : Except MarkupFault (TextTable × Text) := do
  let table ← renderTable (reportTable r)
  let line ← Markup.render ("[green]" ++ ("Patched " ++ p.text) ++ "[/green]")
  return (table, line)

/-- Shows the summary of a patch, which has then succeeded. -/
def printSummary (r : Report) (p : Path) : Action Nat := do
  printTable (reportTable r)
  printGreen ("Patched " ++ p.text)
  return 0

/-- The action ends as rendering does, and has no effect. -/
def Shows {α : Type} (a : Action α) (x : Except MarkupFault α) : Prop :=
  ∀ w, perform a w = (x.mapError .markup, w)

section

variable {α β : Type}

/-- What is not shown cannot fail. -/
theorem shows_pure (a : α) : Shows (pure a) (pure a) :=
  fun _ => rfl

/-- A text is shown if it can be rendered. -/
theorem shows_shown (t : Text) : Shows (shown t) (Markup.render t) := by
  intro w
  rw [shown]
  cases Markup.render t <;> rfl

/-- What is shown in two parts fails in the first one that cannot be rendered. -/
theorem Shows.bind {a : Action α} {x : Except MarkupFault α} {f : α → Action β}
    {g : α → Except MarkupFault β} (ha : Shows a x) (hf : ∀ y, Shows (f y) (g y)) :
    Shows (a >>= f) (x >>= g) := by
  intro w
  rw [perform_bind, ha]
  cases x with
  | error e => rfl
  | ok y => exact hf y w

/-- The same holds of several parts in a row. -/
theorem Shows.mapM {f : α → Action β} {g : α → Except MarkupFault β} (hf : ∀ y, Shows (f y) (g y))
    (ys : List α) : Shows (ys.mapM f) (ys.mapM g) := by
  induction ys with
  | nil =>
    rw [List.mapM_nil, List.mapM_nil]
    exact shows_pure _
  | cons y rest ih =>
    rw [List.mapM_cons, List.mapM_cons]
    exact (hf y).bind fun _ => ih.bind fun _ => shows_pure _

/-- Behind what can be shown, everything goes on in the same world. -/
theorem Shows.perform_bind_of_ok {a : Action α} {x : Except MarkupFault α} {y : α} (ha : Shows a x)
    (hx : x = .ok y) (f : α → Action β) (w : World) : perform (a >>= f) w = perform (f y) w := by
  rw [perform_bind, ha, hx]
  rfl

/-- Behind what cannot be shown, nothing is done. -/
theorem Shows.perform_bind_of_error {a : Action α} {x : Except MarkupFault α} {e : MarkupFault}
    (ha : Shows a x) (hx : x = .error e) (f : α → Action β) (w : World) :
    perform (a >>= f) w = (.error (.markup e), w) := by
  rw [perform_bind, ha, hx]
  rfl

end

/-- The action that shows the texts of a table. -/
def shownTable (t : TextTable) : Action TextTable := do
  let title ← shown t.title
  let columns ← t.columns.mapM shown
  let rows ← t.rows.mapM (·.mapM shown)
  return { title, columns, rows }

/-- A table is shown if all its texts can be rendered. -/
theorem shows_shownTable (t : TextTable) : Shows (shownTable t) (renderTable t) := by
  refine (shows_shown t.title).bind fun title => ?_
  refine (Shows.mapM shows_shown t.columns).bind fun columns => ?_
  refine (Shows.mapM (fun row => Shows.mapM shows_shown row) t.rows).bind fun rows => ?_
  exact shows_pure _

theorem printTable_eq (t : TextTable) :
    printTable t = shownTable t >>= fun table => Action.emit (.tabulated table) := by
  simp only [printTable, shownTable, bind_assoc, pure_bind]

variable {r : Report} {p : Path} {w w' : World}

/-- A table is rendered as a whole before it is printed. -/
theorem perform_printTable_of_ok {t table : TextTable} (h : renderTable t = .ok table) (w : World) :
    perform (printTable t) w = (.ok ⟨⟩, { w with trace := w.trace ++ [.tabulated table] }) := by
  rw [printTable_eq, (shows_shownTable t).perform_bind_of_ok h]
  rfl

theorem perform_printTable_of_error {t : TextTable} {e : MarkupFault} (h : renderTable t = .error e)
    (w : World) : perform (printTable t) w = (.error (.markup e), w) := by
  rw [printTable_eq, (shows_shownTable t).perform_bind_of_error h]

theorem perform_print_of_ok {t line : Text} (h : Markup.render t = .ok line) (w : World) :
    perform (print t) w = (.ok ⟨⟩, { w with trace := w.trace ++ [.printed line] }) := by
  rw [print, (shows_shown t).perform_bind_of_ok h]
  rfl

/-- A line that cannot be rendered is not printed. -/
theorem perform_print_of_error {t : Text} {e : MarkupFault} (h : Markup.render t = .error e)
    (w : World) : perform (print t) w = (.error (.markup e), w) := by
  rw [print, (shows_shown t).perform_bind_of_error h]

/-- The summary is the table of the report and a line that names the path. -/
theorem renderSummary_eq_ok_iff {table : TextTable} {line : Text} :
    renderSummary r p = .ok (table, line) ↔ renderTable (reportTable r) = .ok table ∧
      Markup.render ("[green]" ++ ("Patched " ++ p.text) ++ "[/green]") = .ok line := by
  rw [renderSummary, Except.bind_eq_ok_iff]
  simp only [Except.bind_pure_eq_ok_iff, Prod.mk.injEq]
  constructor
  · rintro ⟨_, htable, _, hline, rfl, rfl⟩
    exact ⟨htable, hline⟩
  · rintro ⟨htable, hline⟩
    exact ⟨_, htable, _, hline, rfl, rfl⟩

/-- A summary that can be rendered is printed, and ends the command well. -/
theorem perform_printSummary_of_ok {table : TextTable} {line : Text}
    (h : renderSummary r p = .ok (table, line)) (w : World) :
    perform (printSummary r p) w =
      (.ok 0, { w with trace := w.trace ++ [.tabulated table, .printed line] }) := by
  obtain ⟨htable, hline⟩ := renderSummary_eq_ok_iff.mp h
  rw [printSummary, perform_bind, perform_printTable_of_ok htable]
  dsimp only
  rw [perform_bind, printGreen, perform_print_of_ok hline]
  dsimp only
  rw [perform_pure, List.append_assoc, List.singleton_append]

/-- A summary that cannot be shown stops the command, and leaves all files as they are. -/
theorem perform_printSummary_of_error {e : MarkupFault} (h : renderSummary r p = .error e) (w : World) :
    ∃ w', perform (printSummary r p) w = (.error (.markup e), w') ∧ w'.files = w.files := by
  rw [printSummary, perform_bind]
  rw [renderSummary] at h
  -- the fault is that of the table, or, when the table has been printed, that of the line
  cases htable : renderTable (reportTable r) with
  | error f =>
    rw [htable] at h
    cases h
    rw [perform_printTable_of_error htable]
    exact ⟨w, rfl, rfl⟩
  | ok table =>
    rw [htable, Except.ok_bind] at h
    rw [perform_printTable_of_ok htable]
    dsimp only
    rw [perform_bind, printGreen]
    cases hline : Markup.render ("[green]" ++ ("Patched " ++ p.text) ++ "[/green]") with
    | error f =>
      rw [hline] at h
      cases h
      rw [perform_print_of_error hline]
      exact ⟨_, rfl, rfl⟩
    | ok line =>
      rw [hline] at h
      cases h

/-! ## Reports -/

section

variable {body : Action Nat} {f : Fault} {n : Nat}

/-- Reporting changes nothing about what succeeds. -/
theorem perform_reporting_of_ok (h : perform body w = (.ok n, w')) :
    perform (reporting body) w = (.ok n, w') := by
  rw [reporting, perform_tryCatch, h]

/-- **A foreseen fault is always reported**; the exit status is one. -/
theorem perform_reporting_of_foreseen (hf : f.isForeseen = true)
    (h : perform body w = (.error f, w')) :
    ∃ line, perform (reporting body) w =
      (.ok 1, { w' with trace := w'.trace ++ [.printed line] }) := by
  obtain ⟨line, hline⟩ := Markup.exists_render_failed f.message
  refine ⟨line, ?_⟩
  rw [reporting, perform_tryCatch, h]
  dsimp only
  rw [if_pos hf, perform_bind, perform_print_of_ok hline]
  rfl

/-- What is not foreseen escapes. -/
theorem perform_reporting_of_unforeseen (hf : f.isForeseen = false)
    (h : perform body w = (.error f, w')) : perform (reporting body) w = (.error f, w') := by
  rw [reporting, perform_tryCatch, h]
  dsimp only
  rw [hf]
  rfl

/-- Reporting a fault changes no file. -/
theorem files_perform_reporting (body : Action Nat) (w : World) :
    (perform (reporting body) w).2.files = (perform body w).2.files := by
  rcases hbody : perform body w with ⟨f | n, w'⟩
  · cases hf : f.isForeseen with
    | true =>
      obtain ⟨line, hline⟩ := perform_reporting_of_foreseen hf hbody
      rw [hline]
    | false => rw [perform_reporting_of_unforeseen hf hbody]
  · rw [perform_reporting_of_ok hbody]

end

variable {host : Host} {registry : Registry} {words : List Text} {path : Text} {table : Option Text}
  {isStrict isCheck : Bool}

theorem keeps_argumentPath (t : Text) : Keeps id (argumentPath t) := by
  rw [argumentPath]
  split
  · exact keeps_throw _
  · split
    · exact keeps_throw _
    · exact keeps_pure _

/-- What a command does with the file that its argument names. -/
def patchOrCheck (p : Path) (table : Option Text) (isStrict isCheck : Bool) : Action Nat :=
  if isCheck then check p table isStrict else patch p table isStrict

/-- A command that patches or checks a file does so, and reports foreseen faults. -/
theorem perform_execute (h : request words = some (.carryOut (.patch path table isStrict isCheck)))
    {outcome : Except Fault Nat} (hp : perform (argumentPath path) w = (.ok p, w))
    (hbody : perform (reporting (patchOrCheck p table isStrict isCheck)) w = (outcome, w')) :
    perform (execute host registry words) w = (outcome.map .status, w') := by
  rw [execute, h]
  dsimp only
  rw [carryOut, perform_bind, perform_bind, hp]
  dsimp only [perform_pure]
  rw [perform_bind, ← patchOrCheck, hbody]
  cases outcome <;> rfl

/-- The command fails when its argument is no path.  Otherwise it patches or checks the file. -/
theorem perform_execute_cases
    (h : request words = some (.carryOut (.patch path table isStrict isCheck))) (host : Host)
    (registry : Registry) (w : World) :
    (∃ f, perform (argumentPath path) w = (.error f, w) ∧
        perform (execute host registry words) w = (.error f, w)) ∨
      ∃ p outcome w', perform (argumentPath path) w = (.ok p, w) ∧
        perform (reporting (patchOrCheck p table isStrict isCheck)) w = (outcome, w') ∧
        perform (execute host registry words) w = (outcome.map .status, w') := by
  -- the path is looked at before anything is reported
  rcases (keeps_argumentPath path).perform_cases w with ⟨f, hp⟩ | ⟨p, hp⟩
  · refine .inl ⟨f, hp, ?_⟩
    rw [execute, h]
    dsimp only
    rw [carryOut, perform_bind, perform_bind, hp]
  · exact .inr ⟨p, _, _, hp, rfl, perform_execute h hp rfl⟩

/-! ## Checks -/

/-- The report on a schema file, which a check shows. -/
def survey (p : Path) (table : Option Text) : Action Report := do
  let t ← PatchTable.load table
  match t.coverage (← Schema.load p) with
  | .error a => throw (.pipeline (.ambiguousRule a))
  | .ok r => return r

/-- A survey changes nothing. -/
theorem keeps_survey (p : Path) (table : Option Text) : Keeps id (survey p table) := by
  refine (PatchTable.keeps_load table).bind fun t => (Schema.keeps_load p).bind fun s => ?_
  split
  · exact keeps_throw _
  · exact keeps_pure _

/-- A check shows the report, and counts what is missing if it is strict. -/
theorem check_eq (p : Path) (table : Option Text) (isStrict : Bool) :
    check p table isStrict = (do
      let r ← survey p table
      printTable (reportTable r)
      return if isStrict && !r.missing.isEmpty then 1 else 0) := by
  simp only [check, survey, bind_assoc]
  congr
  funext t
  congr
  funext s
  cases t.coverage s <;> rfl

/-- Nor does a check, of the files. -/
theorem keeps_files_check (p : Path) (table : Option Text) (isStrict : Bool) :
    Keeps World.files (check p table isStrict) := by
  rw [check_eq]
  refine ((keeps_survey p table).part _).bind fun r => Keeps.bind (fun w => ?_) fun _ => keeps_pure _
  exact congrArg Prod.fst (keeps_surface_printTable (reportTable r) w)

/-- **A check changes no file.** -/
theorem keeps_files_execute_check
    (h : request words = some (.carryOut (.patch path table isStrict true))) (host : Host)
    (registry : Registry) : Keeps World.files (execute host registry words) := by
  intro w
  rcases perform_execute_cases h host registry w with
    ⟨f, -, hexecute⟩ | ⟨p, outcome, w', -, hreporting, hexecute⟩
  · rw [hexecute]
  · have hfiles := files_perform_reporting (patchOrCheck p table isStrict true) w
    rw [hreporting] at hfiles
    rw [hexecute]
    exact hfiles.trans (keeps_files_check p table isStrict w)

/-- A check that can show its report counts what is missing if it is strict. -/
theorem perform_check_of_ok {shown : TextTable} (hsurvey : perform (survey p table) w = (.ok r, w))
    (hshown : renderTable (reportTable r) = .ok shown) (isStrict : Bool) :
    perform (check p table isStrict) w =
      (.ok (if isStrict && !r.missing.isEmpty then 1 else 0),
        { w with trace := w.trace ++ [.tabulated shown] }) := by
  rw [check_eq, perform_bind, hsurvey]
  dsimp only
  rw [perform_bind, perform_printTable_of_ok hshown]
  rfl

/-- A survey succeeds when the table can be loaded and the file describes a schema. -/
theorem perform_survey_eq_ok_iff {v : World} :
    perform (survey p table) w = (.ok r, v) ↔
      ∃ t s, perform (PatchTable.load table) w = (.ok t, w) ∧
        perform (Schema.load p) w = (.ok s, w) ∧ t.coverage s = .ok r ∧ w = v := by
  rw [survey, perform_bind_eq_ok_iff]
  constructor
  -- neither loading changes the world, which is therefore the same at each step
  · rintro ⟨t, w₁, ht, h⟩
    cases (PatchTable.keeps_load table).eq ht
    obtain ⟨s, w₂, hs, h⟩ := perform_bind_eq_ok_iff.mp h
    cases (Schema.keeps_load p).eq hs
    cases hcoverage : t.coverage s with
    | error a =>
      rw [hcoverage] at h
      cases h
    | ok r' =>
      rw [hcoverage] at h
      cases h
      exact ⟨t, s, ht, hs, hcoverage, rfl⟩
  · rintro ⟨t, s, ht, hs, hcoverage, rfl⟩
    refine ⟨t, w, ht, perform_bind_eq_ok_iff.mpr ⟨s, w, hs, ?_⟩⟩
    rw [hcoverage]
    rfl

/-! ## Patches -/

/-- The ways that a patch can go in a world. -/
inductive PatchCourse (p : Path) (table : Option Text) (isStrict : Bool) (w : World) :
    Except Fault Nat → World → Prop where
  /-- There is nothing to report on. -/
  | unsurveyed {f : Fault} (survey : perform (survey p table) w = (.error f, w)) :
    PatchCourse p table isStrict w (.error f) w
  /-- The patch is strict, and something is missing. -/
  | drifted {r : Report} (survey : perform (survey p table) w = (.ok r, w))
      (strict : isStrict = true) (missing : r.missing ≠ []) :
    PatchCourse p table isStrict w (.error (.pipeline (.drift r.missing))) w
  /-- The schema cannot be patched, or the patched schema cannot be written. -/
  | unsaved {t : PatchTable} {r : Report} {f : Fault} {w' : World}
      (survey : perform (survey p table) w = (.ok r, w)) (met : isStrict = true → r.missing = [])
      (load : perform (PatchTable.load table) w = (.ok t, w))
      (update : perform (t.updateFile isStrict p) w = (.error f, w')) :
    PatchCourse p table isStrict w (.error f) w'
  /-- The file is patched, and then the summary is shown. -/
  | patched {t : PatchTable} {s : Schema} {r : Report} {q : Pipeline} {outcome : Except Fault Nat}
      {w' : World} (survey : perform (survey p table) w = (.ok r, w))
      (met : isStrict = true → r.missing = [])
      (load : perform (PatchTable.load table) w = (.ok t, w))
      (patch : perform (t.patchFile isStrict p) { world := w } = (.ok (s, r), q))
      (summary : perform (printSummary r p) q.world = (outcome, w')) :
    PatchCourse p table isStrict w outcome w'

/-- The patch that has been performed is followed by its summary. -/
theorem perform_patch_of_patchFile {t : PatchTable} {s : Schema} {q : Pipeline}
    (hload : perform (PatchTable.load table) w = (.ok t, w))
    (hpatch : perform (t.patchFile isStrict p) { world := w } = (.ok (s, r), q)) :
    perform (patch p table isStrict) w = perform (printSummary r p) q.world := by
  rw [patch, perform_bind, hload]
  dsimp only
  rw [perform_bind, perform_inFreshRun, hpatch]
  rfl

/-- The report of a patch is the one on the schema that was in the file. -/
theorem coverage_of_patchFile {t : PatchTable} {s : Schema} {q : Pipeline} (ht : t.conflict? = none)
    (h : perform (t.patchFile isStrict p) { world := w } = (.ok (s, r), q)) :
    ∃ loaded, perform (Schema.load p) w = (.ok loaded, w) ∧ t.coverage loaded = .ok r ∧
      (isStrict = true → r.missing = []) := by
  have hleaves := PatchTable.leaves_of_patchFile t isStrict p { world := w }
  rw [h] at hleaves
  cases hleaves with
  | @patched old content loaded _ _ text _ hread hloaded hpatch hcanonical hencode hrewritten =>
    obtain ⟨hcoverage, hmet, -⟩ := (PatchTable.patch_eq_ok_iff ht).mp hpatch
    refine ⟨loaded, Schema.perform_load_eq_ok_iff.mpr ⟨⟨old, hread, hloaded⟩, rfl⟩, hcoverage, ?_⟩
    -- the report of the patch is the one that coverage gives
    rw [PatchTable.coverage_eq ht] at hcoverage
    cases hcoverage
    exact hmet

/-- Patching a file leaves the canonical text in it, and every other file as it was. -/
theorem rewritten_of_patchFile {t : PatchTable} {s : Schema} {q : Pipeline}
    (h : perform (t.patchFile isStrict p) { world := w } = (.ok (s, r), q)) :
    ∃ content, s.bytes = .ok content ∧ FileTree.Rewritten p content w.files q.world.files := by
  have hleaves := PatchTable.leaves_of_patchFile t isStrict p { world := w }
  rw [h] at hleaves
  cases hleaves with
  | patched _ _ _ htext hencode hrewritten =>
    exact ⟨_, Schema.bytes_eq_ok_iff.mpr ⟨_, htext, hencode⟩, hrewritten⟩

/-- Where the file stood that was patched, its canonical text is found. -/
theorem find_of_patchFile {t : PatchTable} {s : Schema} {q : Pipeline} {content old : Bytes}
    {l : Location} (h : perform (t.patchFile isStrict p) { world := w } = (.ok (s, r), q))
    (hbytes : s.bytes = .ok content) (hplace : w.files.find p = .ok (.taken l (.file old))) :
    q.world.files.find p = .ok (.taken l (.file content)) := by
  obtain ⟨content', hbytes', hrewritten⟩ := rewritten_of_patchFile h
  cases hbytes.symm.trans hbytes'
  obtain ⟨l', old', hfind, hfind', -⟩ := hrewritten.location
  cases hplace.symm.trans hfind
  exact hfind'

/-- A strict patch is refused when something is missing. -/
theorem perform_updateFile_of_drift {t : PatchTable} {s : Schema}
    (hload : perform (Schema.load p) w = (.ok s, w)) (hcoverage : t.coverage s = .ok r)
    (hmissing : r.missing ≠ []) :
    perform (t.updateFile true p) w = (.error (.pipeline (.drift r.missing)), w) := by
  have hempty : r.missing.isEmpty = false := by
    rwa [Bool.eq_false_iff, ne_eq, List.isEmpty_iff]
  rw [PatchTable.updateFile, perform_bind, hload]
  dsimp only
  rw [perform_bind, PatchTable.patching, PatchTable.patch, hcoverage]
  dsimp only
  rw [hempty]
  rfl

/-- An update that fails does so on loading the file, on something that is missing, or later. -/
theorem patchCourse_of_updateFile {t : PatchTable} {f : Fault}
    (hload : perform (PatchTable.load table) w = (.ok t, w))
    (h : perform (t.updateFile isStrict p) w = (.error f, w')) :
    PatchCourse p table isStrict w (.error f) w' := by
  rcases (Schema.keeps_load p).perform_cases w with ⟨f', hschema⟩ | ⟨s, hschema⟩
  · rw [PatchTable.updateFile, perform_bind, hschema] at h
    cases h
    refine .unsurveyed ?_
    rw [survey, perform_bind, hload]
    dsimp only
    rw [perform_bind, hschema]
  · have hcoverage := PatchTable.coverage_eq (PatchTable.wellFormed_of_load hload).unambiguous s
    have hsurvey := perform_survey_eq_ok_iff.mpr ⟨t, s, hload, hschema, hcoverage, rfl⟩
    -- an update that fails behind the survey has missed an instruction, or cannot be carried out
    by_cases hmet : isStrict = true → t.missingFrom s = []
    · exact .unsaved hsurvey hmet hload h
    · obtain ⟨rfl, hmissing⟩ := Classical.not_imp.mp hmet
      cases h.symm.trans (perform_updateFile_of_drift hschema hcoverage hmissing)
      exact .drifted hsurvey rfl hmissing

/-- **A patch takes one of the courses.** -/
theorem patchCourse (p : Path) (table : Option Text) (isStrict : Bool) (w : World) :
    PatchCourse p table isStrict w (perform (patch p table isStrict) w).1
      (perform (patch p table isStrict) w).2 := by
  rcases (PatchTable.keeps_load table).perform_cases w with ⟨f, hload⟩ | ⟨t, hload⟩
  · have hsurvey : perform (survey p table) w = (.error f, w) := by
      rw [survey, perform_bind, hload]
    have hpatch : perform (patch p table isStrict) w = (.error f, w) := by
      rw [patch, perform_bind, hload]
    rw [hpatch]
    exact .unsurveyed hsurvey
  · have ht := (PatchTable.wellFormed_of_load hload).unambiguous
    rcases hfile : perform (t.patchFile isStrict p) { world := w } with ⟨f | ⟨s, r⟩, q⟩
    · have hpatch : perform (patch p table isStrict) w = (.error f, q.world) := by
        rw [patch, perform_bind, hload]
        dsimp only
        rw [perform_bind, perform_inFreshRun, hfile]
      -- in a fresh run, patching fails as the update does
      have hupdate : perform (t.updateFile isStrict p) w = (.error f, q.world) := by
        rw [PatchTable.perform_patchFile (q := { world := w }) rfl] at hfile
        rcases hupdate : perform (t.updateFile isStrict p) w with ⟨f' | done, w'⟩
        all_goals
          rw [hupdate] at hfile
          cases hfile
        rfl
      rw [hpatch]
      exact patchCourse_of_updateFile hload hupdate
    · obtain ⟨loaded, hschema, hcoverage, hmet⟩ := coverage_of_patchFile ht hfile
      have hsurvey := perform_survey_eq_ok_iff.mpr ⟨t, loaded, hload, hschema, hcoverage, rfl⟩
      rw [perform_patch_of_patchFile hload hfile]
      exact .patched hsurvey hmet hload hfile rfl

/-! ## Summaries without Closing Tags -/

/-- A list of names starts no closing tag if none of the names does: there is a blank behind each comma. -/
theorem noClosing_commaList {names : List Text} (h : ∀ name ∈ names, Markup.NoClosing name) :
    Markup.NoClosing (commaList names) := by
  rw [commaList]
  -- on the names: one is followed by a comma and a blank, so no tag goes from one into the next
  induction names with
  | nil => decide
  | cons name rest ih =>
    obtain ⟨hname, hrest⟩ := List.forall_mem_cons.mp h
    cases rest with
    | nil => exact hname
    | cons name' rest =>
      have hlast : (name ++ Text.ofString ", ").getLast? = some (.scalar ' ') := by
        rw [List.getLast?_append_of_ne_nil _ (by decide)]
        decide
      rw [Text.join]
      · refine Markup.NoClosing.append (hname.append (by decide) (.inr (by decide))) (ih hrest) ?_
        rw [hlast]
        exact .inl (by decide)
      · simp

/-- The names in a report that are shown. -/
def shownNames (r : Report) : List Text :=
  r.patched ++ r.alreadyPresent ++ r.conflicting ++ r.missing ++ r.unknownTypes

/-- A summary in which no closing tag can start is shown. -/
theorem exists_renderSummary (hversion : Markup.NoClosing r.tableVersion)
    (hnames : ∀ name ∈ shownNames r, Markup.NoClosing name) (hpath : Markup.NoClosing p.text) :
    ∃ shown, renderSummary r p = .ok shown := by
  have htitle : Markup.NoClosing (reportTable r).title := by
    refine Markup.NoClosing.append (.append (by decide) hversion (.inl (by decide))) (by decide) (.inr ?_)
    decide
  have hcells : ∀ row ∈ (reportTable r).rows, ∀ cell ∈ row, Markup.NoClosing cell := by
    intro row hrow cell hcell
    obtain ⟨⟨label, names⟩, hlisted, rfl⟩ := List.mem_map.mp hrow
    -- each row is one of five, with a label and the names of one list of the report
    obtain ⟨hlabel, hall⟩ : Markup.NoClosing label ∧ ∀ name ∈ names, Markup.NoClosing name := by
      have hmem := List.mem_of_mem_filter hlisted
      simp only [List.mem_cons, List.not_mem_nil, or_false, Prod.mk.injEq] at hmem
      rcases hmem with ⟨rfl, rfl⟩ | ⟨rfl, rfl⟩ | ⟨rfl, rfl⟩ | ⟨rfl, rfl⟩ | ⟨rfl, rfl⟩
      all_goals exact ⟨by decide, fun name hname => hnames name (by simp [shownNames, hname])⟩
    rcases List.mem_pair.mp hcell with rfl | rfl
    · exact hlabel
    · exact noClosing_commaList hall
  obtain ⟨title, htitle⟩ := Markup.exists_render_of_noClosing htitle
  obtain ⟨columns, hcolumns⟩ : ∃ columns, (reportTable r).columns.mapM Markup.render = .ok columns :=
    Except.exists_mapM_iff.mpr fun column hcolumn =>
      Markup.exists_render_of_noClosing (by
        rcases List.mem_pair.mp hcolumn with rfl | rfl <;> decide)
  obtain ⟨rows, hrows⟩ : ∃ rows, (reportTable r).rows.mapM (·.mapM Markup.render) = .ok rows :=
    Except.exists_mapM_iff.mpr fun row hrow => Except.exists_mapM_iff.mpr fun cell hcell =>
      Markup.exists_render_of_noClosing (hcells row hrow cell hcell)
  obtain ⟨line, hline⟩ := Markup.exists_render_green
    (Markup.NoClosing.append (s := "Patched ") (by decide) hpath (.inl (by decide)))
  refine ⟨(⟨title, columns, rows⟩, line), renderSummary_eq_ok_iff.mpr ⟨?_, hline⟩⟩
  rw [renderTable, htitle, hcolumns, hrows]
  rfl

/-- No closing tag can start in a name or a path that the summary of a patch may show. -/
structure ShownPlainly (t : PatchTable) (s : Schema) (p : Path) : Prop where
  version : Markup.NoClosing t.version
  names : ∀ name ∈ t.names, Markup.NoClosing name
  types : ∀ rule ∈ t.rules, ∀ name, rule.append.type.definedName = some name → Markup.NoClosing name
  instructions : ∀ name ∈ s.instructionNames, Markup.NoClosing name
  path : Markup.NoClosing p.text

/-- Each unknown type is the type of what a rule appends. -/
theorem exists_rule_of_mem_unknownTypes (t : PatchTable) (s : Schema) :
    ∀ name ∈ t.unknownTypes s, ∃ rule ∈ t.rules, rule.append.type.definedName = some name := by
  rw [PatchTable.unknownTypes]
  refine List.foldlRecOn (motive := fun found : List Text => ∀ name ∈ found, ∃ rule ∈ t.rules,
    rule.append.type.definedName = some name) t.rules _ (List.forall_mem_nil _)
    fun found hfound rule hrule => ?_
  -- a type is noted the first time it comes up
  split
  · next n hn =>
    split
    · exact hfound
    · intro name hname
      rcases List.mem_append.mp hname with hname | hname
      · exact hfound name hname
      · exact ⟨rule, hrule, hn.trans (congrArg some (List.mem_singleton.mp hname).symm)⟩
  · exact hfound

/-- If everything that may be shown is free of closing tags, then the summary can be shown. -/
theorem ShownPlainly.exists_renderSummary {t : PatchTable} {s : Schema} (h : ShownPlainly t s p)
    (ht : t.conflict? = none) (hcoverage : t.coverage s = .ok r) :
    ∃ shown, renderSummary r p = .ok shown := by
  rw [PatchTable.coverage_eq ht] at hcoverage
  cases hcoverage
  refine CommandLine.exists_renderSummary h.version (fun name hname => ?_) h.path
  have hnamesOf (kind : Standing → Bool) (hmem : name ∈ t.namesOf kind s.instructions) :
      Markup.NoClosing name :=
    h.instructions name ((PatchTable.namesOf_sublist t kind s).subset hmem)
  -- the names of instructions are those of the schema, the missing ones and the types those of the table
  simp only [shownNames, List.mem_append] at hname
  rcases hname with (((hpatched | hpresent) | hconflicting) | hmissing) | hunknown
  · exact hnamesOf _ hpatched
  · exact hnamesOf _ hpresent
  · exact hnamesOf _ hconflicting
  · exact h.names name (List.mem_of_mem_filter hmissing)
  · obtain ⟨rule, hrule, hname⟩ := exists_rule_of_mem_unknownTypes t s name hunknown
    exact h.types rule hrule name hname

/-! ## Late Failures -/

/-- The file at the path is patched and its content changes, and then the summary cannot be shown. -/
inductive FailsLate (path : Text) (table : Option Text) (isStrict : Bool) (w : World)
    (e : MarkupFault) : Prop where
  | intro {p : Path} {t : PatchTable} {s : Schema} {r : Report} {q : Pipeline}
      (argument : perform (argumentPath path) w = (.ok p, w))
      (load : perform (PatchTable.load table) w = (.ok t, w))
      (patch : perform (t.patchFile isStrict p) { world := w } = (.ok (s, r), q))
      (changed : q.world.files ≠ w.files) (summary : renderSummary r p = .error e) :
    FailsLate path table isStrict w e

/-- The medium is full: the file at the path is left with a part of the canonical text that was to be written,
and everything else is as it was. -/
inductive CutShort (path : Text) (table : Option Text) (isStrict : Bool) (w : World)
    (after : FileTree) : Prop where
  | intro {p : Path} {t : PatchTable} {content : Bytes} {n : ℕ}
      (argument : perform (argumentPath path) w = (.ok p, w))
      (load : perform (PatchTable.load table) w = (.ok t, w))
      (fault : (perform (t.updateFile isStrict p) w).1 =
        .error (.pipeline (.unwrittenSchema p.text .noSpace)))
      (write : w.files.write p content = (after, .error (.system .noSpace p.text)))
      (short : n < content.length)
      (rewritten : FileTree.Rewritten p (content.take n) w.files after) :
    CutShort path table isStrict w after

/-- Where no write is cut short, nothing is left in part. -/
theorem CutShort.unchanged {after : FileTree} (h : CutShort path table isStrict w after)
    (hwhole : ∀ p, perform (argumentPath path) w = (.ok p, w) → w.files.WritesWhole p) :
    after = w.files := by
  obtain ⟨hp, -, -, hwrite, -, -⟩ := h
  exact hwhole _ hp _ _ _ hwrite

/-- A command that fails late is stopped by the fault of its summary, when the file has been rewritten. -/
theorem perform_execute_of_failsLate {e : MarkupFault} (h : FailsLate path table isStrict w e)
    (hwords : request words = some (.carryOut (.patch path table isStrict false))) (host : Host)
    (registry : Registry) :
    ∃ w', perform (execute host registry words) w = (.error (.markup e), w') ∧ w'.files ≠ w.files := by
  obtain ⟨hp, hload, hfile, hchanged, hrender⟩ := h
  obtain ⟨w', hprint, hfiles⟩ := perform_printSummary_of_error hrender _
  have hpatch : perform (patchOrCheck _ table isStrict false) w = (.error (.markup e), w') :=
    (perform_patch_of_patchFile hload hfile).trans hprint
  refine ⟨w', perform_execute hwords hp (perform_reporting_of_unforeseen rfl hpatch), ?_⟩
  rwa [hfiles]

/-- **A patch that fails and leaves a change behind** has failed late, or its write was cut short; the latter is
reported. -/
theorem failsLate_or_cutShort
    (hwords : request words = some (.carryOut (.patch path table isStrict false)))
    (hfails : (perform (execute host registry words) w).1 ≠ .ok (.status 0))
    (hchanged : (perform (execute host registry words) w).2.files ≠ w.files) :
    (∃ e, FailsLate path table isStrict w e) ∨
      (perform (execute host registry words) w).1 = .ok (.status 1) ∧
        CutShort path table isStrict w (perform (execute host registry words) w).2.files := by
  rcases perform_execute_cases hwords host registry w with
    ⟨f, -, hexecute⟩ | ⟨p, outcome, w', hp, hreporting, hexecute⟩
  · rw [hexecute] at hchanged
    exact absurd rfl hchanged
  · rw [hexecute] at hfails hchanged ⊢
    -- what is reported has no effect on the files, so that they are those that the patch has left
    have hfiles := files_perform_reporting (patch p table isStrict) w
    have hcourse := patchCourse p table isStrict w
    rcases hpatch : perform (patch p table isStrict) w with ⟨outcome', w₁⟩
    rw [hpatch] at hcourse hfiles
    replace hreporting : perform (reporting (patch p table isStrict)) w = (outcome, w') := hreporting
    rw [hreporting] at hfiles
    replace hfiles : w'.files = w₁.files := hfiles
    dsimp only at hchanged ⊢
    rw [hfiles] at hchanged ⊢
    cases hcourse with
    | unsurveyed => exact absurd rfl hchanged
    | drifted => exact absurd rfl hchanged
    | unsaved _ _ hload hupdate =>
      have hleaves := PatchTable.leaves_of_failed_updateFile hupdate
      generalize w₁.files = after at hleaves hchanged ⊢
      cases hleaves with
      | failed => exact absurd rfl hchanged
      | cutShort hread hloaded hpatched hcanonical hencoded hwrite hshort hrewritten =>
        obtain ⟨line, hline⟩ := perform_reporting_of_foreseen rfl hpatch
        cases hreporting.symm.trans hline
        -- a write that is cut short is foreseen, and reported with the exit status
        exact .inr ⟨rfl, .intro hp hload (congrArg Prod.fst hupdate) hwrite hshort hrewritten⟩
    | @patched t s r q _ _ hsurvey hmet hload hfile hsummary =>
      cases hrender : renderSummary r p with
      | ok shown =>
        cases hsummary.symm.trans (perform_printSummary_of_ok hrender q.world)
        cases hreporting.symm.trans (perform_reporting_of_ok hpatch)
        exact absurd rfl hfails
      | error e =>
        obtain ⟨w₂, hprint, hw₂⟩ := perform_printSummary_of_error hrender q.world
        cases hsummary.symm.trans hprint
        rw [hw₂] at hchanged
        exact .inl ⟨e, .intro hp hload hfile hchanged hrender⟩

/-- A command whose summary can be shown does not fail late. -/
theorem not_failsLate (h : ∀ p t s, perform (argumentPath path) w = (.ok p, w) →
      perform (PatchTable.load table) w = (.ok t, w) → perform (Schema.load p) w = (.ok s, w) →
      ShownPlainly t s p) (e : MarkupFault) : ¬FailsLate path table isStrict w e := by
  intro hlate
  cases hlate with
  | @intro p t s r q hp hload hfile hchanged hrender =>
    have ht := (PatchTable.wellFormed_of_load hload).unambiguous
    obtain ⟨loaded, hschema, hcoverage, -⟩ := coverage_of_patchFile ht hfile
    obtain ⟨shown, hshown⟩ := (h p t loaded hp hload hschema).exists_renderSummary ht hcoverage
    cases hrender.symm.trans hshown

/-! ## Main Result -/

/-- **A patch that fails has changed no file, unless it fails late or its write is cut short.**  When the
command ends in any way other than with the exit status zero, no file has changed unless one of the two has
happened.  When it fails late, the fault of the summary escapes after the file has been rewritten.  That
cannot happen when no name and no path that may be shown holds the start of a closing tag.  A write that is
cut short is reported with the exit status one, and changes nothing where writes succeed or have no effect. -/
theorem patch_fails_early_or_late
    (hwords : request words = some (.carryOut (.patch path table isStrict isCheck))) (host : Host)
    (registry : Registry) (w : World) :
    ((perform (execute host registry words) w).1 ≠ .ok (.status 0) →
        (perform (execute host registry words) w).2.files = w.files ∨
          isCheck = false ∧ ((∃ e, FailsLate path table isStrict w e) ∨
            (perform (execute host registry words) w).1 = .ok (.status 1) ∧
              CutShort path table isStrict w (perform (execute host registry words) w).2.files)) ∧
      (∀ e, isCheck = false → FailsLate path table isStrict w e →
        ∃ w', perform (execute host registry words) w = (.error (.markup e), w') ∧
          w'.files ≠ w.files) ∧
      ((∀ p t s, perform (argumentPath path) w = (.ok p, w) →
          perform (PatchTable.load table) w = (.ok t, w) →
          perform (Schema.load p) w = (.ok s, w) → ShownPlainly t s p) →
        ∀ e, ¬FailsLate path table isStrict w e) ∧
      ((∀ p, perform (argumentPath path) w = (.ok p, w) → w.files.WritesWhole p) →
        ∀ after, CutShort path table isStrict w after → after = w.files) := by
  refine ⟨fun hfails => ?_, fun e hpatch hlate => ?_, fun hplain e => not_failsLate hplain e,
    fun hwhole after hcut => hcut.unchanged hwhole⟩
  -- a check changes no file; a patch that fails changed one too early or not to its end
  · cases isCheck with
    | true => exact .inl (keeps_files_execute_check hwords host registry w)
    | false =>
      by_cases hchanged : (perform (execute host registry words) w).2.files = w.files
      · exact .inl hchanged
      · exact .inr ⟨rfl, failsLate_or_cutShort hwords hfails hchanged⟩
  · subst hpatch
    exact perform_execute_of_failsLate hlate hwords host registry

end CommandLine

/-! ## A Path with a Closing Tag -/

namespace Bracketed

open CommandLine

/-- A file that denotes an empty schema. -/
def content : Bytes :=
  Utf8.encodeChars "\x7b\"instructions\":[],\"types\":[]\x7d".toList

/-- The canonical text of the schema. -/
def canonical : String :=
  "\x7b\n  \"instructions\": [],\n  \"types\": []\n\x7d\n"

def document : Json :=
  .object [("instructions", .list []), ("types", .list [])]

def schema : Schema where
  instructions := []
  types := []

/-- A directory whose name ends in a bracket, with the file. -/
def world : World where
  files :=
    { home := []
      entries := [(["a["], .directory), (["a[", "b].json"], .file content)] }

/-- The path of the file. -/
def path : Path :=
  ⟨.relative, ["a[", "b].json"]⟩

def words : List Text :=
  ["patch", "--no-strict", "a[/b].json"]

set_option maxRecDepth 10000 in
theorem ofBytes_content : Json.ofBytes content = some document := by
  cbv

theorem canonical_document : document.canonical = canonical := by
  cbv

theorem bytes_schema : schema.bytes = .ok (Utf8.encodeChars canonical.toList) := by
  have htext : schema.canonical = .ok document.canonical :=
    Schema.canonical_eq_ok_iff.mpr ⟨document, rfl, rfl⟩
  refine Schema.bytes_eq_ok_iff.mpr ⟨_, htext, ?_⟩
  rw [canonical_document]
  decide

/-- The built-in table patches the file, which is then in canonical form. -/
theorem patchFile_world :
    ∃ r q, perform (PatchTable.phoenix.patchFile false path) { world } = (.ok (schema, r), q) ∧
      q.world.files.find path =
        .ok (.taken ["a[", "b].json"] (.file (Utf8.encodeChars canonical.toList))) := by
  have hshows : PatchTable.phoenix.Shows schema := by
    rw [PatchTable.shows_iff]
    exact List.forall_mem_nil _
  obtain ⟨q, hpatch⟩ : ∃ q, perform (PatchTable.phoenix.patchFile false path) { world } =
      (.ok (schema, PatchTable.phoenix.reportOn schema), q) :=
    PatchTable.exists_patchFile PatchTable.conflict?_phoenix rfl
      (Schema.ofBytes_eq_ok_iff.mpr ⟨document, ofBytes_content, rfl⟩) (by simp) hshows bytes_schema rfl
  have hplace : world.files.find path = .ok (.taken ["a[", "b].json"] (.file content)) := rfl
  exact ⟨_, q, hpatch, find_of_patchFile hpatch bytes_schema hplace⟩

/-- The built-in table changes the file, and then the line that names its path cannot be shown. -/
theorem failsLate : ∃ e, FailsLate "a[/b].json" none false world e := by
  obtain ⟨r, q, hpatch, hfind⟩ := patchFile_world
  -- the path led to a file before, and leads elsewhere in the text of the line
  have hchanged : q.world.files ≠ world.files := by
    intro hsame
    have hplace : world.files.find path = .ok (.taken ["a[", "b].json"] (.file content)) := rfl
    rw [hsame, hplace] at hfind
    exact absurd hfind (by decide)
  have hline : Markup.render ("[green]" ++ ("Patched " ++ path.text) ++ "[/green]") =
      .error (.unmatched "/b") := by
    decide +kernel
  cases hrender : renderSummary r path with
  | ok shown =>
    cases (renderSummary_eq_ok_iff.mp hrender).2.symm.trans hline
  | error e => exact ⟨e, .intro rfl rfl hpatch hchanged hrender⟩

/-- The file is rewritten, and then the line that names its path cannot be shown. -/
theorem rewritten_and_failed :
    request words = some (.carryOut (.patch "a[/b].json" none false false)) ∧
      ∃ e w', perform (execute Sample.host .builtin words) world = (.error (.markup e), w') ∧
        w'.files ≠ world.files := by
  have hwords : request words = some (.carryOut (.patch "a[/b].json" none false false)) := by
    decide
  obtain ⟨e, hlate⟩ := failsLate
  obtain ⟨w', hexecute, hchanged⟩ :=
    (patch_fails_early_or_late hwords Sample.host .builtin world).2.1 e rfl hlate
  exact ⟨hwords, e, w', hexecute, hchanged⟩

end Bracketed

end SchemaGraft
