import SchemaGraft.Proofs.Generator.Handover
import SchemaGraft.Proofs.Schema.File
import SchemaGraft.Proofs.World.Location

/-!
# What the Generating Command Finds

Before it asks for its command, the generator makes the directory of the client and a temporary one, and
writes the schema to a file.  Nothing else changes.  The file is in the temporary directory as long as the
name of the program leads there; a name that leads up, or is an absolute path, leads to a file elsewhere.

## Architecture

- **Names**: `Generator.schemaPath`, and `Path.ofText_of_noSlash` for names of one part.
- **Before the command**: `Generator.Prepared` and `Generator.Wrote`, with
  `Generator.perform_runCommandIn_cases`.
- **Main result**: `Generator.command_writes`.
-/

namespace SchemaGraft

/-! ## Names -/

theorem Text.splitOn_of_notMem {t : Text} {separator : Codepoint} (h : separator ∉ t) :
    t.splitOn separator = [t] := by
  induction t with
  | nil => rfl
  | cons c rest ih =>
    rw [List.mem_cons, not_or] at h
    rw [splitOn, if_neg (Ne.symm h.1), ih h.2]

/-- A name without a slash is a path of one part. -/
theorem Path.ofText_of_noSlash {t : Text} (hslash : slash ∉ t) (hne : t ≠ [])
    (hdot : t ≠ Text.ofString ".") : ofText t = ⟨.relative, [t]⟩ := by
  have hroot : rootOf t = .relative := by
    cases t with
    | nil => rfl
    | cons c rest =>
      have hc : c ≠ slash := fun hc => hslash (hc ▸ List.mem_cons_self)
      rw [rootOf, List.takeWhile_cons_of_neg (by simpa using hc)]
      rfl
  rw [ofText, hroot, Text.splitOn_of_notMem hslash]
  simp [hne, hdot]

namespace Generator

variable {host : Host} {s : Schema}

/-- The path of the schema file in a temporary directory. -/
def schemaPath (here : Location) (s : Schema) : Path :=
  Path.mk .absolute here ++ Path.ofText (schemaFileName s)

theorem length_schemaFileName (s : Schema) : 5 ≤ (schemaFileName s).length := by
  rw [schemaFileName, List.length_append]
  exact Nat.le_add_left 5 _

/-! ## Before the Command -/

/-- The arguments of the command, with the two paths filled in. -/
def rendered (argv : List Text) (file directory : Path) : List Text :=
  Template.render [("schema", file.text), ("out_dir", directory.text)] argv

/-- The files when the command is asked for: the schema file and the temporary directory are there, and the
directory of the client has been made, with the parents that were missing. -/
structure Prepared (directory : Path) (here file : Location) (content : Bytes)
    (before t : FileTree) : Prop where
  written : t.entry? file = some (.file content)
  temporary : here ≠ file → t.entry? here = some .directory
  rest : ∀ l, l ≠ here → l ≠ file → FileTree.KeptOrMade directory before t l

section

variable {directory : Path} {before made files : FileTree} {here file l : Location} {content : Bytes}

theorem prepared_of_made (hmade : FileTree.Made directory before made) (hhere : here ≠ [])
    (hfile : file ≠ []) (content : Bytes) :
    Prepared directory here file content before
      ((made.put here .directory).put file (.file content)) where
  written := by rw [FileTree.entry?_put _ hfile, if_pos rfl]
  temporary hne := by
    rw [FileTree.entry?_put _ hfile, if_neg hne, FileTree.entry?_put _ hhere, if_pos rfl]
  rest l hl hl' := by
    refine (hmade.entry l).of_entry ?_
    rw [FileTree.entry?_put _ hfile, if_neg hl', FileTree.entry?_put _ hhere, if_neg hl]

/-- With the temporary directory all goes that is not of the client, but for a file elsewhere. -/
theorem keptOrMade_remove (hmade : FileTree.Made directory before made) (hhere : here ≠ [])
    (hfiles : files = made.put here .directory ∨
      file ≠ [] ∧ ∃ part, files = (made.put here .directory).put file (.file part))
    (hl : ¬here <+: l) (hl' : l ≠ file) :
    FileTree.KeptOrMade directory before (files.remove here) l := by
  have hother : l ≠ here := fun h => hl (h ▸ List.prefix_rfl)
  refine (hmade.entry l).of_entry ?_
  rw [FileTree.entry?_remove _ hl]
  rcases hfiles with rfl | ⟨hfile, part, rfl⟩
  · rw [FileTree.entry?_put _ hhere, if_neg hother]
  · rw [FileTree.entry?_put _ hfile, if_neg hl', FileTree.entry?_put _ hhere, if_neg hother]

end

/-- What the generator has done when it ends, if `here` was its temporary directory. -/
inductive Wrote (host : Host) (argv : List Text) (s : Schema) (directory : Path) (here : Location)
    (before after : World) : Prop where
  /-- It has not asked for the command. -/
  | failed (steps : after.steps = before.steps)
      (files : ∀ l, ¬here <+: l → l ≠ before.files.location (schemaPath here s) →
        FileTree.KeptOrMade directory before.files after.files l)
  /-- It has asked for the command, and taken the temporary directory away. -/
  | asked {t : FileTree} {content : Bytes} (canonical : s.bytes = .ok content)
      (prepared : Prepared directory here (before.files.location (schemaPath here s)) content
        before.files t)
      (steps : after.steps = before.steps ++
        [host.starting (rendered argv (schemaPath here s) directory) t])
      (files : after.files =
        (host.filesAfter (rendered argv (schemaPath here s) directory) t).remove here)

/-- In a temporary directory, one file is written, and then the command is asked for. -/
theorem perform_runCommandIn_cases (host : Host) (tool : Text) (arguments : List Text) (s : Schema)
    (directory : Path) (here : Location) (w : World) :
    (∃ f u, perform (runCommandIn host tool arguments s directory ⟨.absolute, here⟩) w = (.error f, u) ∧
        u.steps = w.steps ∧
        (u.files = w.files ∨ w.files.location (schemaPath here s) ≠ [] ∧
          ∃ part, u.files = w.files.put (w.files.location (schemaPath here s)) (.file part))) ∨
      ∃ content, s.bytes = .ok content ∧ w.files.location (schemaPath here s) ≠ [] ∧
        let u := (perform (runCommandIn host tool arguments s directory ⟨.absolute, here⟩) w).2
        let t := w.files.put (w.files.location (schemaPath here s)) (.file content)
        let argv := rendered (tool :: arguments) (schemaPath here s) directory
        u.steps = w.steps ++ [host.starting argv t] ∧ u.files = host.filesAfter argv t := by
  rw [runCommandIn]
  cases htext : s.text with
  | error f => exact .inl ⟨f, w, rfl, rfl, .inl rfl⟩
  | ok text =>
    dsimp only
    rw [perform_bind, perform_pure]
    dsimp only
    have hfile : Path.mk .absolute here ++ Path.ofText (schemaFileName s) = schemaPath here s := rfl
    rw [hfile, perform_bind]
    -- the command is asked only once the schema has been written as a whole
    rcases Action.perform_writeText_cases (schemaPath here s) text w with
      ⟨content, hencode, hlocation, hwrite⟩ | ⟨f, files, hwrite, hfiles⟩
    · have hbytes : s.bytes = .ok content := by
        rw [Schema.bytes, htext, Except.ok_bind, hencode]
        rfl
      refine .inr ⟨content, hbytes, hlocation, ?_⟩
      rw [hwrite]
      dsimp only
      rw [perform_bind, Action.perform_note (.generatingWith ..) rfl]
      dsimp only
      rw [perform_bind, perform_tryCatch, Action.perform_launch]
      dsimp only
      let values : List (Text × Text) :=
        [("schema", (schemaPath here s).text), ("out_dir", directory.text)]
      have hargv : Template.fill values tool :: Template.render values arguments =
        rendered (tool :: arguments) (schemaPath here s) directory := rfl
      rw [hargv]
      have hsteps (files t : FileTree) (argv : List Text) (n : Notice) :
          World.steps { files, trace := w.trace ++ [.noticed n] ++ [host.starting argv t] } =
            w.steps ++ [host.starting argv t] := by
        rw [World.steps_append _ w.files, World.steps_append _ w.files]
        simp [Event.isStep, Host.starting]
      cases host.launch (rendered (tool :: arguments) (schemaPath here s) directory) _ with
      | ok e => exact ⟨hsteps .., rfl⟩
      | error f => exact ⟨hsteps .., rfl⟩
    · rw [hwrite]
      refine .inl ⟨f, _, rfl, rfl, hfiles.imp_right ?_⟩
      rintro ⟨hlocation, part, -, hpart⟩
      exact ⟨hlocation, part, hpart⟩

/-- With the directory of the client made, the command is run in a temporary directory. -/
theorem exists_wrote (host : Host) (tool : Text) (arguments : List Text) (s : Schema) {directory : Path}
    {made : FileTree} (w : World) (hmade : FileTree.Made directory w.files made) :
    ∃ n, made.entry? (host.temporaryLocation n) = none ∧
      Wrote host (tool :: arguments) s directory (host.temporaryLocation n) w
        (perform (runCommand host tool arguments s directory) { w with files := made }).2 := by
  obtain ⟨n, hfree, hperform⟩ := Action.perform_inFreshDirectory host
    (runCommandIn host tool arguments s directory) { w with files := made }
  refine ⟨n, hfree, ?_⟩
  have hhere := host.temporaryLocation_ne_nil n
  -- relative paths start at home, which making directories does not change
  have hlocation (p : Path) : (made.put (host.temporaryLocation n) .directory).location p =
      w.files.location p := FileTree.location_congr hmade.home p
  rw [runCommand, hperform]
  rcases perform_runCommandIn_cases host tool arguments s directory (host.temporaryLocation n)
    { w with files := made.put (host.temporaryLocation n) .directory } with
    ⟨f, u, hrun, hsteps, hfiles⟩ | ⟨content, hbytes, hfile, hsteps, hfiles⟩
  · rw [hrun]
    rw [hlocation] at hfiles
    exact .failed hsteps fun l hl hl' => keptOrMade_remove hmade hhere hfiles hl hl'
  · rw [hlocation] at hfile hsteps hfiles
    exact .asked hbytes (prepared_of_made hmade hhere hfile content) hsteps
      (congrArg (FileTree.remove · _) hfiles)

/-- A bad exit status is a fault, but changes nothing. -/
theorem perform_checkStatus (tool : Text) (run : Action Int) (w : World) :
    (perform (do
      let status ← run
      if status ≠ 0 then
        throw (.pipeline (.generatorFailed tool (.status status)))) w).2 = (perform run w).2 := by
  rw [perform_bind]
  rcases perform run w with ⟨f | status, u⟩
  · rfl
  · dsimp only
    split <;> rfl

/-- The generator has written no more than it says, in a temporary directory where nothing was. -/
theorem wrote_of_command {argv : List Text} {g : Generator} (hg : command argv = .ok g) (host : Host)
    (s : Schema) (directory : Path) (w : World) :
    ∃ n, FileTree.entry? (w.files.makeDirectories directory).1 (host.temporaryLocation n) = none ∧
      w.files.entry? (host.temporaryLocation n) = none ∧
      Wrote host argv s directory (host.temporaryLocation n) w (perform (g.generate host s directory) w).2 := by
  cases argv with
  | nil =>
    rw [command] at hg
    cases hg
  | cons tool arguments =>
    rw [command] at hg
    cases hg
    dsimp only
    have hmade := w.files.made_makeDirectories directory
    rw [perform_bind, Action.makeDirectories, Action.perform_change]
    -- where the output directory cannot be made, nothing is written at all
    rcases hmake : w.files.makeDirectories directory with ⟨made, outcome⟩
    rw [hmake] at hmade
    dsimp only at hmade ⊢
    cases outcome with
    | error f =>
      have hfree := Action.entry?_freeNumber made host.temporary
      exact ⟨_, hfree, hmade.free hfree, .failed rfl fun l _ _ => hmade.entry l⟩
    | ok _ =>
      dsimp only [Except.mapError]
      rw [perform_checkStatus]
      obtain ⟨n, hfree, hwrote⟩ := exists_wrote host tool arguments s w hmade
      exact ⟨n, hfree, hmade.free hfree, hwrote⟩

/-! ## Main Result -/

/-- Where the schema file is, when the name of the program does not lead out of the temporary directory. -/
theorem location_schemaPath (t : FileTree) {here : Location} (hhere : Text.ofString ".." ∉ here)
    (s : Schema) :
    ((Path.ofText (schemaFileName s)).root = .relative →
      Text.ofString ".." ∉ (Path.ofText (schemaFileName s)).parts →
      t.location (schemaPath here s) = here ++ (Path.ofText (schemaFileName s)).parts) ∧
    (Path.slash ∉ schemaFileName s → t.location (schemaPath here s) = here ++ [schemaFileName s]) := by
  have hdown (hroot : (Path.ofText (schemaFileName s)).root = .relative)
      (hparts : Text.ofString ".." ∉ (Path.ofText (schemaFileName s)).parts) :
      t.location (schemaPath here s) = here ++ (Path.ofText (schemaFileName s)).parts := by
    rw [schemaPath, FileTree.location_append t hhere hroot, Location.follow_of_down hparts]
  refine ⟨hdown, fun hslash => ?_⟩
  -- the name of the file ends in `.json`, so it is longer than any name with a meaning of its own
  have hother (name : Text) (hname : name.length < 5) : schemaFileName s ≠ name := by
    rintro rfl
    exact absurd (length_schemaFileName s) (Nat.not_le.mpr hname)
  have hname := Path.ofText_of_noSlash hslash (hother [] (by decide))
    (hother (Text.ofString ".") (by decide))
  rw [hname] at hdown
  refine hdown rfl fun hup => ?_
  exact hother (Text.ofString "..") (by decide) (List.mem_singleton.mp hup).symm

/-- **What the generating command writes.**  There is a location in the directory of temporary files where
nothing was, and when the command is asked for, only this can have changed: a directory is there, the schema
file holds the canonical text, and the directory of the client has been made with the parents that were
missing.  If the command is not asked for, no more than that has happened, and the temporary directory is
gone.  The schema file is in the temporary directory when the name of the program does not lead up and is no
absolute path. -/
theorem command_writes {argv : List Text} {g : Generator} (hg : command argv = .ok g) (host : Host)
    (s : Schema) (directory : Path) (w : World) :
    ∃ n, let here := host.temporaryLocation n
      FileTree.entry? (w.files.makeDirectories directory).1 here = none ∧
      w.files.entry? here = none ∧
      Wrote host argv s directory here w (perform (g.generate host s directory) w).2 ∧
      (Text.ofString ".." ∉ here →
        ((Path.ofText (schemaFileName s)).root = .relative →
          Text.ofString ".." ∉ (Path.ofText (schemaFileName s)).parts →
          w.files.location (schemaPath here s) = here ++ (Path.ofText (schemaFileName s)).parts) ∧
        (Path.slash ∉ schemaFileName s →
          w.files.location (schemaPath here s) = here ++ [schemaFileName s])) := by
  -- where the file is does not depend on what the command does
  obtain ⟨n, hmade, hfree, hwrote⟩ := wrote_of_command hg host s directory w
  exact ⟨n, hmade, hfree, hwrote, fun hhere => location_schemaPath w.files hhere s⟩

end Generator

/-! ## A Name That Leads Up -/

namespace Escaping

/-- A schema whose program has the name of a file beside the temporary directory. -/
def schema : Schema where
  instructions := []
  name := some (some "../up")
  types := []

/-- A file in the directory of temporary files. -/
def file : Location :=
  ["tmp", "up.json"]

/-- A world of this file. -/
def world : World where
  files :=
    { home := []
      entries := [(["tmp"], .directory), (file, .file [])] }

/-- A system on which every tool succeeds and writes nothing. -/
def host : Host where
  launch _ files := .ok { files }
  temporary := ["tmp"]

/-- The directory of the client. -/
def directory : Path :=
  ⟨.relative, ["out"]⟩

theorem temporaryName_ne (n : ℕ) {t : Text} (h : t.head? ≠ some (.scalar 'i')) :
    Action.temporaryName n ≠ t := by
  rintro rfl
  exact h rfl

theorem not_prefix_file (n : ℕ) : ¬host.temporaryLocation n <+: file := by
  intro h
  have hname := List.cons_prefix_cons.mp (List.cons_prefix_cons.mp h).2
  exact temporaryName_ne n (by decide) hname.1

theorem location_schema (n : ℕ) :
    world.files.location (Generator.schemaPath (host.temporaryLocation n) schema) = file := by
  have hdown : Text.ofString ".." ∉ host.temporaryLocation n := by
    simp only [Host.temporaryLocation, host, List.cons_append, List.nil_append, List.mem_cons,
      List.not_mem_nil, or_false, not_or]
    exact ⟨by decide, (temporaryName_ne n (by decide)).symm⟩
  have hname : Path.ofText (Generator.schemaFileName schema) = ⟨.relative, ["..", "up.json"]⟩ := by
    decide
  rw [Generator.schemaPath, hname, FileTree.location_append _ hdown rfl, Location.follow_cons,
    if_pos rfl, Location.follow_of_down (by decide), Host.temporaryLocation, List.dropLast_concat]
  rfl

/-- When the command is asked for, the file beside the temporary directory has been overwritten. -/
theorem file_overwritten :
    (∀ n, ¬host.temporaryLocation n <+: file) ∧ world.files.entry? file = some (.file []) ∧
      ∃ g argv t content, Generator.command ["g"] = .ok g ∧ schema.bytes = .ok content ∧
        (perform (g.generate host schema directory) world).2.steps = [host.starting argv t] ∧
        t.entry? file = some (.file content) := by
  refine ⟨not_prefix_file, rfl, ?_⟩
  obtain ⟨g, hg⟩ : ∃ g, Generator.command ["g"] = .ok g := ⟨_, rfl⟩
  obtain ⟨n, -, -, hwrote, -⟩ := Generator.command_writes hg host schema directory world
  -- one step was taken, so the command was asked
  cases hwrote with
  | failed steps =>
    cases hg
    have hlength := congrArg List.length steps
    cbv at hlength
  | asked canonical prepared steps =>
    rw [location_schema] at prepared
    exact ⟨g, _, _, _, hg, canonical, steps, prepared.written⟩

end Escaping

end SchemaGraft
