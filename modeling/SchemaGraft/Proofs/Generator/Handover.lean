import SchemaGraft.Generator.Registry
import SchemaGraft.Proofs.Json.Members
import SchemaGraft.Proofs.World.Elsewhere
import SchemaGraft.Proofs.World.Steps

/-!
# What Generators Receive

Each built-in generator hands the canonical text of the schema on to what renders the client: the command
finds it in a file, the library is called with it.

## Architecture

- **Result**: `Generator.Handover` lists what a generator can have done outside.
- **Commands**: `Generator.perform_runCommand`.
- **Libraries**: `Generator.perform_calls`, for the calls in their order.
- **Main result**: `Registry.handover_of_builtin`.
-/

namespace SchemaGraft

namespace Generator

/-- The calls of the library for the parts of a client. -/
def parts (id : Value) (directory : Path) : List LibraryCall :=
  let d := directory.text
  [.programId id d, .errors d, .instructions d, .types d, .accounts d]

/-- What a built-in generator has done outside when it was given, in the world `before`, a schema with the
canonical text `text`, which is also the `content` of the schema file. -/
inductive Handover (host : Host) (c : Config) (text : Text) (content : Bytes) (before : World) :
    Except Fault Unit → World → Prop where
  /-- Nothing, since it has failed too early. -/
  | nothing {f : Fault} {after : World} (steps : after.steps = before.steps) :
    Handover host c text content before (.error f) after
  /-- It has asked for the command, once.  When it did, both the file that the command was given and the
  schema file held the text.  It succeeds only if the command reports success. -/
  | command {file : Path} {files : FileTree} {argv : List Text} {outcome : Except Fault Unit}
      {after : World}
      (arguments : argv = Template.render [("schema", file.text), ("out_dir", c.outDir.text)]
        c.generatorCommand)
      (given : files.HasFile file content) (source : files.read c.schemaPath = .ok content)
      (steps : after.steps = before.steps ++ [host.starting argv files])
      (success : outcome = .ok ⟨⟩ → ∃ e, host.launch argv files = .ok e ∧ e.status = 0) :
    Handover host c text content before outcome after
  /-- It has called the library, first with the text and then for the parts of the client, each at most
  once; if it succeeds, all of them. -/
  | library {id : Value} {calls : List LibraryCall} {outcome : Except Fault Unit} {after : World}
      (order : calls <+: .fromJson text :: parts id c.outDir)
      (steps : after.steps = before.steps ++ calls.map .called)
      (success : outcome = .ok ⟨⟩ → calls = .fromJson text :: parts id c.outDir) :
    Handover host c text content before outcome after

variable {host : Host} {s : Schema} {text : Text} {content : Bytes}

/-! ## Commands -/

/-- In a temporary directory the text of the schema is written to a file, on which the command runs; a
file that held that text before holds it still. -/
theorem perform_runCommandIn (htext : s.text = .ok text) (hencode : Utf8.encode text = .ok content)
    (host : Host) (tool : Text) (arguments : List Text) (directory temporary : Path) {p : Path}
    {w : World} (hread : w.files.read p = .ok content) :
    (∃ f u, perform (runCommandIn host tool arguments s directory temporary) w = (.error f, u) ∧
        u.steps = w.steps) ∨
      ∃ (file : Path) (files : FileTree) (outcome : Except Fault Int) (u : World),
        files.HasFile file content ∧ files.read p = .ok content ∧
        perform (runCommandIn host tool arguments s directory temporary) w = (outcome, u) ∧
        u.steps = w.steps ++ [host.starting
          (Template.render [("schema", file.text), ("out_dir", directory.text)] (tool :: arguments))
          files] ∧
        ∀ status, outcome = .ok status → ∃ e, host.launch
          (Template.render [("schema", file.text), ("out_dir", directory.text)] (tool :: arguments))
          files = .ok e ∧ e.status = status := by
  rw [runCommandIn, htext]
  dsimp only
  rw [perform_bind, perform_pure]
  dsimp only
  let file := temporary ++ Path.ofText (schemaFileName s)
  rw [perform_bind, Action.perform_writeText hencode, Action.write, Action.perform_change]
  -- where the schema cannot be written, the command is not started
  rcases hwrite : w.files.write file content with ⟨files, f | _⟩
  · exact .inl ⟨_, _, rfl, rfl⟩
  · refine .inr ⟨file, files, ?_⟩
    dsimp only [Except.mapError]
    rw [perform_bind, Action.perform_note (.generatingWith ..) rfl]
    dsimp only
    rw [perform_bind, perform_tryCatch, Action.perform_launch]
    dsimp only
    let argv := Template.render [("schema", file.text), ("out_dir", directory.text)]
      (tool :: arguments)
    have hargv : Template.fill [("schema", file.text), ("out_dir", directory.text)] tool ::
      Template.render [("schema", file.text), ("out_dir", directory.text)] arguments = argv := rfl
    rw [hargv]
    have hsteps (files' : FileTree) : World.steps { files := files', trace := w.trace ++
        [.noticed (.generatingWith directory.text (Template.fill
          [("schema", file.text), ("out_dir", directory.text)] tool))] ++
        [host.starting argv files] } = w.steps ++ [host.starting argv files] := by
      rw [World.steps_append _ w.files, World.steps_append _ w.files]
      simp [Event.isStep, Host.starting]
    have hgiven := FileTree.hasFile_write hwrite
    have hsource := FileTree.read_write_same hread hwrite
    cases host.launch argv files with
    | ok e => exact ⟨.ok e.status, _, hgiven, hsource, rfl, hsteps _,
        fun status h => ⟨e, rfl, Except.ok.inj h⟩⟩
    | error f => exact ⟨.error _, _, hgiven, hsource, rfl, hsteps _, fun status h => by cases h⟩

/-- The generator that runs a command hands over the text. -/
theorem handover_of_command {c : Config} {g : Generator} (hg : command c.generatorCommand = .ok g)
    (htext : s.text = .ok text) (hencode : Utf8.encode text = .ok content) {w : World}
    (hread : w.files.read c.schemaPath = .ok content) :
    Handover host c text content w (perform (g.generate host s c.outDir) w).1
      (perform (g.generate host s c.outDir) w).2 := by
  cases hargv : c.generatorCommand with
  | nil =>
    rw [hargv, command] at hg
    cases hg
  | cons tool arguments =>
    rw [hargv, command] at hg
    cases hg
    dsimp only
    have hmade := FileTree.read_makeDirectories hread c.outDir
    rw [perform_bind, Action.makeDirectories, Action.perform_change]
    cases (w.files.makeDirectories c.outDir).2 with
    | error f => exact .nothing rfl
    | ok _ =>
      dsimp only [Except.mapError]
      -- the directories that were made and the temporary one are where nothing was
      obtain ⟨n, hfree, hperform⟩ := Action.perform_inFreshDirectory host
        (runCommandIn host tool arguments s c.outDir)
        { w with files := (w.files.makeDirectories c.outDir).1 }
      rw [perform_bind, runCommand, hperform]
      rcases perform_runCommandIn htext hencode host tool arguments c.outDir
        ⟨.absolute, host.temporaryLocation n⟩ (w := {
          w with files := (w.files.makeDirectories c.outDir).1.put (host.temporaryLocation n) .directory })
        (FileTree.read_put_of_free (host.temporaryLocation_ne_nil n) hfree hmade) with
        ⟨f, u, hrun, hsteps⟩ | ⟨file, files, outcome, u, hgiven, hsource, hrun, hsteps, hsuccess⟩
      · rw [hrun]
        exact .nothing hsteps
      · rw [hrun]
        cases outcome with
        | error f =>
          exact .command (by rw [hargv]) hgiven hsource hsteps fun h => by cases h
        | ok status =>
          obtain ⟨e, hlaunch, rfl⟩ := hsuccess status rfl
          dsimp only
          by_cases hstatus : e.status = 0
          · rw [if_neg (not_not.mpr hstatus)]
            exact .command (by rw [hargv]) hgiven hsource hsteps fun _ => ⟨e, hlaunch, hstatus⟩
          · rw [if_pos hstatus]
            exact .command (by rw [hargv]) hgiven hsource hsteps fun h => by cases h

/-! ## Libraries -/

/-- The only steps of the action are the calls of the library, in the given order and as far as no call
fails. -/
def Calls {α : Type} (calls : List LibraryCall) (a : Action α) : Prop :=
  ∀ w, ∃ made, made <+: calls ∧ (perform a w).2.steps = w.steps ++ made.map .called ∧
    ∀ x, (perform a w).1 = .ok x → made = calls

section

variable {α β : Type} {calls calls' : List LibraryCall}

theorem Calls.of_keeps {a : Action α} (h : Keeps World.steps a) : Calls [] a :=
  fun w => ⟨[], List.nil_prefix, by simpa using h w, fun _ _ => rfl⟩

theorem Calls.bind {a : Action α} {f : α → Action β} (ha : Calls calls a)
    (hf : ∀ x, Calls calls' (f x)) : Calls (calls ++ calls') (a >>= f) := by
  intro w
  obtain ⟨made, hmade, hsteps, hall⟩ := ha w
  rw [perform_bind]
  -- a fault ends the calls early, and otherwise all of them are made before the next
  rcases h : perform a w with ⟨e | x, v⟩
  · rw [h] at hsteps
    exact ⟨made, hmade.trans (List.prefix_append ..), hsteps, fun x hx => by cases hx⟩
  · rw [h] at hsteps hall
    cases hall x rfl
    obtain ⟨made', hmade', hsteps', hall'⟩ := hf x v
    refine ⟨calls ++ made', (List.prefix_append_right_inj calls).mpr hmade', ?_, fun y hy => ?_⟩
    · dsimp only at hsteps ⊢
      rw [hsteps', hsteps, List.map_append, List.append_assoc]
    · rw [hall' y hy]

theorem calls_call (library : LibraryCall → Option Text) (toFault : Text → GeneratorFault)
    (c : LibraryCall) : Calls [c] (call library toFault c) := by
  intro w
  have hemit : perform (Action.emit (.called c)) w =
      (.ok ⟨⟩, { w with trace := w.trace ++ [.called c] }) := rfl
  have hstep : World.steps { w with trace := w.trace ++ [.called c] } = w.steps ++ [.called c] :=
    World.steps_append ..
  rw [call, perform_bind, hemit]
  cases library c with
  | some message => exact ⟨[c], List.prefix_rfl, hstep, fun x hx => rfl⟩
  | none => exact ⟨[c], List.prefix_rfl, hstep, fun x hx => rfl⟩

/-- A loop of calls makes them in their order. -/
theorem calls_loop (library : LibraryCall → Option Text) (toFault : Text → GeneratorFault)
    (calls : List LibraryCall) : Calls calls (for c in calls do call library toFault c) := by
  induction calls with
  | nil => exact .of_keeps (keeps_pure _)
  | cons c rest ih =>
    rw [List.forIn_cons]
    simp only [bind_assoc, pure_bind]
    exact (calls_call library toFault c).bind fun _ => ih

end

theorem keeps_steps_change (f : FileTree → FileTree × Except AccessFault Unit) :
    Keeps World.steps (Action.change f) := by
  intro w
  rw [Action.perform_change]
  rfl

theorem calls_render (library : LibraryCall → Option Text) (id : Value) (htext : s.text = .ok text)
    (directory : Path) :
    Calls (.fromJson text :: parts id directory) (render library id s directory) := by
  rw [render, htext]
  refine (calls_call library .rejected (.fromJson text)).bind fun _ => ?_
  refine (Calls.of_keeps (keeps_steps_change _)).bind fun _ => ?_
  refine (Calls.of_keeps (keeps_steps_change _)).bind fun _ => ?_
  exact calls_loop library .broken (parts id directory)

/-- The generator that calls the library hands over the text. -/
theorem handover_of_library (c : Config) (given : Option Text) (htext : s.text = .ok text)
    (w : World) :
    Handover host c text content w (perform ((library given).generate host s c.outDir) w).1
      (perform ((library given).generate host s c.outDir) w).2 := by
  rw [library]
  dsimp only
  cases programId given s with
  | error f => exact .nothing rfl
  | ok id =>
    dsimp only
    rw [perform_bind, perform_pure]
    -- without a program or a library nothing is called
    cases host.library with
    | none => exact .nothing rfl
    | some l =>
      obtain ⟨made, hmade, hsteps, hall⟩ := calls_render l id htext c.outDir w
      exact .library hmade hsteps (hall ⟨⟩)

end Generator

/-- **Every built-in generator hands over the canonical text**, as long as the schema file holds it. -/
theorem Registry.handover_of_builtin {host : Host} {c : Config} {g : Generator}
    (hg : Registry.build builtin c = .ok g) {s : Schema} {text : Text} {content : Bytes}
    (hcanonical : s.canonical = .ok text) (hencode : Utf8.encode text = .ok content) {w : World}
    (hread : w.files.read c.schemaPath = .ok content) :
    Generator.Handover host c text content w (perform (g.generate host s c.outDir) w).1
      (perform (g.generate host s c.outDir) w).2 := by
  have htext : s.text = .ok text := by rw [Schema.text, hcanonical]
  rw [build] at hg
  split at hg
  · next make hmake =>
    -- two generators are built in: a command and the library
    rw [builtin, Json.lookup_cons, Json.lookup_cons] at hmake
    split at hmake
    · cases hmake
      exact Generator.handover_of_command hg htext hencode hread
    · split at hmake
      · cases hmake
        cases hg
        exact Generator.handover_of_library c none htext w
      · cases hmake
  · cases hg

end SchemaGraft
